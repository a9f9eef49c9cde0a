import JackStack.Proofs.Following
import JackStack.Proofs.Refinement

/-!
# Proofs/Truncation — a sink with a limit cuts the output short

A class is compiled into a sink with a limit as into one without, up to the command that does not
fit. There the compilation stops, and what the sink holds are the first bytes of what it would have
written, as many as the limit allows. It makes no difference whether the class would have compiled.

The two compilations are compared along the way that actions are made. `Session.CutShort` relates
their results, and `Session.Truncates` says of two actions that their results are so related, and
that what has been written stays: without that, an error of the first compilation could take output
back.

* `Quiet.truncates`, `Looks.truncated` — what the shape of an action says about a limit.
* `Session.cutShort_run` — so is a run.
* `compileInto_limited` — so is the compilation of a source.
-/

namespace JackStack

open Vm (Command)

/-! ## Writing with a limit -/

namespace Sink

/-- **A sink is open**: it has no limit and has refused nothing. -/
structure Open (s : Sink) : Prop where
  limit : s.limit = none
  refused : s.refused = .empty

/-- **The sink with a limit.** -/
def limited (s : Sink) (limit : Nat) : Sink :=
  { s with limit := some limit }

variable {s : Sink} {limit : Nat} {text : String}

theorem fits_limited : (s.limited limit).fits text = true ↔
    (s.bytes ++ text.toUTF8).size ≤ limit := by
  have hsize : (s.bytes ++ text.toUTF8).size = s.size + text.utf8ByteSize := by
    simp [size, bytes]
  rw [hsize]
  exact decide_eq_true_iff

theorem Open.bytes_append (h : s.Open) (text : String) :
    bytes { s with text := s.text ++ text } = s.bytes ++ text.toUTF8 := by
  simp [bytes, h.refused]

/-- A text that fits below the limit is written. -/
theorem write_limited_of_le (hle : (s.bytes ++ text.toUTF8).size ≤ limit) :
    (s.limited limit).write text = (.ok (), limited { s with text := s.text ++ text } limit) := by
  rw [write, if_pos (fits_limited.mpr hle)]
  rfl

/-- Of one that does not fit, the first bytes are kept. -/
theorem write_limited_of_lt (hs : s.bytes.size ≤ limit)
    (hlt : limit < (s.bytes ++ text.toUTF8).size) :
    ∃ s', (s.limited limit).write text = (.error .sinkFull, s') ∧
      s'.bytes = (s.bytes ++ text.toUTF8).extract 0 limit := by
  have hfits : ¬ (s.limited limit).fits text = true := mt fits_limited.mp (Nat.not_le.mpr hlt)
  refine ⟨_, by rw [write, if_neg hfits], ?_⟩
  have hsize : (s.limited limit).size = s.bytes.size := by simp [size, bytes, limited]
  have hwhole : s.bytes.extract 0 limit = s.bytes := by
    rw [← Nat.max_eq_left hs, ByteArray.extract_zero_max_size]
  have hbytes : ((s.limited limit).refuse text).bytes
      = s.bytes ++ text.toUTF8.extract 0 (limit - s.bytes.size) := by
    rw [← hsize]
    exact ByteArray.append_assoc.symm
  rw [hbytes, ByteArray.extract_append, hwhole, Nat.zero_sub]

end Sink

namespace Writer

/-- The writer with a limit for its sink. -/
def limited (w : Writer) (limit : Nat) : Writer :=
  { w with sink := w.sink.limited limit }

variable {w : Writer} {limit : Nat}

/-- **A command is written below the limit**, or the sink is filled by its first bytes. -/
theorem emit_limited (h : w.sink.Open) (hs : w.sink.bytes.size ≤ limit) (c : Command) :
    ((w.wroteOne c).sink.bytes.size ≤ limit ∧
      emit c (w.limited limit) = .ok () ((w.wroteOne c).limited limit)) ∨
    (limit < (w.wroteOne c).sink.bytes.size ∧
      ∃ w', emit c (w.limited limit) = .error (.file .sinkFull) w' ∧
        w'.sink.bytes = (w.wroteOne c).sink.bytes.extract 0 limit) := by
  have hbytes : (w.wroteOne c).sink.bytes = w.sink.bytes ++ c.line.toUTF8 :=
    h.bytes_append c.line
  rw [hbytes]
  obtain ⟨sink, log, count, returned⟩ := w
  rcases Nat.lt_or_ge limit (sink.bytes ++ c.line.toUTF8).size with hlt | hle
  · obtain ⟨sink', hw, hb⟩ := Sink.write_limited_of_lt hs hlt
    exact .inr ⟨hlt, ⟨sink', log.push (.commandWritten count c), count, returned⟩,
      by simp only [emit, limited, hw], hb⟩
  · have hw := Sink.write_limited_of_le hle
    exact .inl ⟨hle, by simp only [emit, limited, hw]; rfl⟩

end Writer

/-! ## Results cut short -/

namespace Session

variable {α β : Type} {limit : Nat}

/-- The session with a limit for its sink. -/
def limited (s : Session) (limit : Nat) : Session :=
  { s with writer := s.writer.limited limit }

/-- **What a session has written.** -/
def bytes (s : Session) : ByteArray :=
  s.writer.sink.bytes

/-- The session that a result leaves. -/
def Result.final : Result α → Session
  | .ok _ s => s
  | .error _ s => s

/-- The result with a limit for the sink. -/
def Result.limited (limit : Nat) : Result α → Result α
  | .ok x s => .ok x (s.limited limit)
  | .error e s => .error e (s.limited limit)

/-- **A session has gone on from another**: its sink is still open, and what was written stays. -/
def Extends (t s : Session) : Prop :=
  t.writer.sink.Open ∧ ∃ more, t.bytes = s.bytes ++ more

/-- **A result is cut short** at the limit: if what was written fits, the other result is the same;
otherwise the sink has refused to go on, and holds the first bytes. -/
inductive CutShort (limit : Nat) : Result α → Result α → Prop
  | same {r : Result α} (h : (Result.final r).bytes.size ≤ limit) :
    CutShort limit r (Result.limited limit r)
  | full {r : Result α} {s : Session} (h : limit < (Result.final r).bytes.size)
    (hs : s.bytes = (Result.final r).bytes.extract 0 limit) :
    CutShort limit r (.error (.file .sinkFull) s)

/-- **An action is cut short by another**, from sessions that differ in the limit of the sink. -/
structure Truncates (limit : Nat) (a b : Action Session α) : Prop where
  grows {s : Session} : s.writer.sink.Open → (Result.final (a s)).Extends s
  cutShort {s : Session} : s.writer.sink.Open → s.bytes.size ≤ limit →
    CutShort limit (a s) (b (s.limited limit))

/-- **A result is cut short**, and what the session before it has written stays. -/
structure Truncated (limit : Nat) (s : Session) (r r' : Result α) : Prop where
  grows : (Result.final r).Extends s
  cutShort : s.bytes.size ≤ limit → CutShort limit r r'

variable {s t u : Session}

theorem Truncates.truncated {a b : Action Session α} (h : Truncates limit a b)
    (hs : s.writer.sink.Open) : Truncated limit s (a s) (b (s.limited limit)) :=
  ⟨h.grows hs, h.cutShort hs⟩

theorem truncates_of_truncated {a b : Action Session α}
    (h : ∀ s : Session, s.writer.sink.Open → Truncated limit s (a s) (b (s.limited limit))) :
    Truncates limit a b :=
  ⟨fun {s} hs => (h s hs).grows, fun {s} hs => (h s hs).cutShort⟩

theorem Extends.refl (h : s.writer.sink.Open) : s.Extends s :=
  ⟨h, .empty, ByteArray.append_empty.symm⟩

theorem Extends.trans (ht : t.Extends s) (hu : u.Extends t) : u.Extends s := by
  obtain ⟨-, more, ht⟩ := ht
  obtain ⟨hopen, more', hu⟩ := hu
  exact ⟨hopen, more ++ more', by rw [hu, ht, ByteArray.append_assoc]⟩

/-- A sink that is full stays so, whatever would have been written after. -/
theorem CutShort.extend {r : Result α} {r' : Result β} {s : Session}
    (h : limit < (Result.final r).bytes.size)
    (hs : s.bytes = (Result.final r).bytes.extract 0 limit)
    (hr : (Result.final r').Extends (Result.final r)) :
    CutShort limit r' (.error (.file .sinkFull) s) := by
  obtain ⟨-, more, hmore⟩ := hr
  refine .full ?_ ?_
  · rw [hmore, ByteArray.size_append]
    omega
  · have hnone : more.extract 0 0 = .empty := by simp
    rw [hs, hmore, ByteArray.extract_append, Nat.zero_sub, Nat.sub_eq_zero_of_le h.le, hnone,
      ByteArray.append_empty]

/-! ## Actions in sequence -/

/-- **What is cut short may be followed by what is cut short.** -/
theorem Truncated.andThen {r r' : Result α} {f g : α → Action Session β}
    (h : Truncated limit s r r')
    (hf : ∀ x s', r = .ok x s' → s'.writer.sink.Open →
      Truncated limit s' (f x s') (g x (s'.limited limit))) :
    Truncated limit s (Action.andThen r f) (Action.andThen r' g) := by
  have hopen : (Result.final r).writer.sink.Open := h.grows.1
  have hgrows : (Result.final (Action.andThen r f)).Extends (Result.final r) := by
    cases r with
    | ok x s' => exact (hf x s' rfl hopen).grows
    | error e s' => exact .refl hopen
  refine ⟨h.grows.trans hgrows, fun hle => ?_⟩
  -- once the sink is full, only the first side goes on, and that takes nothing back
  cases h.cutShort hle with
  | same hfits =>
    cases r with
    | ok x s' => exact (hf x s' rfl hopen).cutShort hfits
    | error e s' => exact .same hfits
  | full hlt hs => exact .extend hlt hs hgrows

/-- An action that leaves the sink alone does the same with a limit. -/
theorem truncates_quiet {a b : Action Session α}
    (hsink : ∀ s, (Result.final (a s)).writer.sink = s.writer.sink)
    (hb : ∀ s, b (s.limited limit) = Result.limited limit (a s)) : Truncates limit a b where
  grows {s} hs := by
    refine ⟨(hsink s).symm ▸ hs, .empty, ?_⟩
    rw [bytes, hsink, ByteArray.append_empty]
    rfl
  cutShort {s} _ hle := by
    rw [hb]
    refine .same ?_
    rwa [bytes, hsink]

theorem truncates_change {f : Session → α × Session}
    (h : ∀ s i w, f (s.moved i w) = ((f s).1, (f s).2.moved i w)) :
    Truncates limit (modifyGet f) (modifyGet f) := by
  refine truncates_quiet (fun s => congrArg Writer.sink (writer_of_moved h s)) fun s => ?_
  have hlimited : f (s.limited limit) = ((f s).1, (f s).2.limited limit) := by
    have heq (s : Session) : s.limited limit = s.moved s.input (s.writer.limited limit) := rfl
    rw [heq, h, heq, input_of_moved h, writer_of_moved h]
  exact congrArg (fun r : α × Session => EStateM.Result.ok r.1 r.2) hlimited

theorem truncates_onInput (a : Action Lookahead α) :
    Truncates limit (onInput a) (onInput a) := by
  refine truncates_quiet (fun s => ?_) fun s => ?_
  · cases h : a s.input with
    | ok x i => rw [onInput_of_ok s h]; rfl
    | error e i => rw [onInput_of_error s h]; rfl
  · cases h : a s.input with
    | ok x i => rw [onInput_of_ok s h, onInput_of_ok (s.limited limit) h]; rfl
    | error e i => rw [onInput_of_error s h, onInput_of_error (s.limited limit) h]; rfl

/-- **A command is cut short.** -/
theorem truncates_emit (c : Command) :
    Truncates limit (onWriter (Writer.emit c)) (onWriter (Writer.emit c)) where
  grows {s} hs := by
    rw [onWriter_of_ok s (Writer.emit_eq_ok hs.limit c)]
    exact ⟨⟨hs.limit, hs.refused⟩, c.line.toUTF8, hs.bytes_append c.line⟩
  cutShort {s} hs hle := by
    rw [onWriter_of_ok s (Writer.emit_eq_ok hs.limit c)]
    rcases Writer.emit_limited hs hle c with ⟨hfits, hc⟩ | ⟨hlt, w, hc, hw⟩
    · rw [onWriter_of_ok (s.limited limit) hc]
      exact .same (r := .ok () { s with writer := s.writer.wroteOne c }) hfits
    · rw [onWriter_of_error (s.limited limit) hc]
      exact .full hlt hw

/-- **Work away from the stream is cut short.** -/
theorem Quiet.truncates {raises : CompileError → Prop} {R : α → α → Prop}
    {a b : Action Session α} (h : Quiet true raises R a b) (hR : ∀ x y, R x y → x = y) :
    Truncates limit a b := by
  induction h with
  | pure h =>
    cases hR _ _ h
    exact truncates_quiet (fun _ => rfl) fun _ => rfl
  | throw hr hu h =>
    cases h.2 rfl
    exact truncates_quiet (fun _ => rfl) fun _ => rfl
  | emit c => exact truncates_emit c
  | note e => exact truncates_quiet (fun _ => rfl) fun _ => rfl
  | change h => exact truncates_change h
  | get h ih =>
    exact truncates_of_truncated fun s hs =>
      (ih s (s.limited limit) ⟨rfl, rfl, rfl, rfl⟩ hR).truncated hs
  | bind ha hf iha ihf =>
    refine truncates_of_truncated fun s hs => ?_
    rw [Action.bind_apply, Action.bind_apply]
    exact ((iha fun _ _ h => h).truncated hs).andThen fun x s' _ hs' =>
      (ihf x hR).truncated hs'

/-- **So is what looks at a token.** -/
theorem Looks.truncated {raises : CompileError → Prop} {wanted : Option String}
    {t : Option Terminal} {R : α → α → Prop} {a b : Action Session α}
    (h : Looks true raises wanted t R a b) (hR : ∀ x y, R x y → x = y)
    (ht : s.input.terminal? = t) (hs : s.writer.sink.Open) :
    Truncated limit s (a s) (b (s.limited limit)) := by
  induction h generalizing s with
  | quiet h => exact (h.truncates hR).truncated hs
  | fail _ => exact (truncates_onInput _).truncated hs
  | pass _ => exact (truncates_onInput _).truncated hs
  | input h ih => exact ih s.input s.input ⟨rfl, fun _ => rfl⟩ ht hR ht hs
  | get h ih => exact ih s (s.limited limit) ⟨rfl, rfl, rfl, rfl⟩ hR ht hs
  | before ha hf ih =>
    rw [Action.bind_apply, Action.bind_apply]
    refine ((ha.truncates fun _ _ h => h).truncated hs).andThen fun x s' hx hs' => ?_
    exact ih x hR (by rw [ha.input_eq hx, ht]) hs'
  | behind ha hf ih =>
    rw [Action.bind_apply, Action.bind_apply]
    exact (ih (fun _ _ h => h) ht hs).andThen fun x s' _ hs' =>
      ((hf x).truncates hR).truncated hs'
  | congr h _ ih =>
    rw [(h s ht).1, (h (s.limited limit) ht).2]
    exact ih hR ht hs

/-- **Doing a goal is cut short.** -/
theorem truncates_perform (g : Goal) : Truncates limit (perform g) (perform g) :=
  truncates_of_truncated fun s hs =>
    (looks_perform g s.input.terminal?).truncated (fun _ _ h => h.1.2 rfl) rfl hs

/-! ## Working through an agenda -/

/-- **A run is cut short**, and what it has written stays. -/
theorem cutShort_run (limit : Nat) (gs : List Goal) (s : Session) (hs : s.writer.sink.Open) :
    Truncated limit s (run gs s) (run gs (s.limited limit)) := by
  fun_induction run gs s with
  | case1 s =>
    refine ⟨.refl hs, fun hle => ?_⟩
    rw [run]
    exact .same (r := .ok () s) hle
  | case2 s g rest goals s' h ih =>
    have hg : Truncated limit s (perform g s) _ := (truncates_perform g).truncated hs
    rw [h] at hg
    rw [run_cons]
    refine hg.andThen (f := fun goals => run (goals ++ rest)) fun x t hx ht => ?_
    cases hx
    exact ih ht
  | case3 s g rest e s' h =>
    have hg : Truncated limit s (perform g s) _ := (truncates_perform g).truncated hs
    rw [h] at hg
    rw [run_cons]
    refine hg.andThen (f := fun goals => run (goals ++ rest)) fun x t hx ht => ?_
    cases hx

end Session

/-! ## Compiling a source -/

/-- **A limit only cuts the output short.** Where all that is written without a limit fits below the
limit, the outcome and the output are the same with it. Elsewhere the sink is filled, with the first
bytes of what is written without a limit, and that is the error. -/
theorem compileInto_limited (source : String) (limit : Nat) :
    ((compileInto source {}).writer.sink.bytes.size ≤ limit ∧
      (compileInto source { limit := some limit }).result = (compileInto source {}).result ∧
      (compileInto source { limit := some limit }).writer.sink.bytes
        = (compileInto source {}).writer.sink.bytes) ∨
    (limit < (compileInto source {}).writer.sink.bytes.size ∧
      (compileInto source { limit := some limit }).result = .error (.file .sinkFull) ∧
      (compileInto source { limit := some limit }).writer.sink.bytes
        = (compileInto source {}).writer.sink.bytes.extract 0 limit) := by
  cases hi : Lookahead.ofSource (Comment.strip source) with
  | error e =>
    simp only [compileInto, hi]
    exact .inl ⟨Nat.zero_le limit, trivial, rfl⟩
  | ok input =>
    simp only [compileInto, hi, compileTokens]
    have hcut : Session.CutShort limit
        (Session.run Goal.classGoals { input, writer := { sink := {} } })
        (Session.run Goal.classGoals { input, writer := { sink := { limit := some limit } } }) :=
      (Session.cutShort_run limit _ (Session.start input {}) ⟨rfl, rfl⟩).2 (Nat.zero_le limit)
    generalize Session.run Goal.classGoals { input, writer := { sink := {} } } = r at hcut ⊢
    generalize Session.run Goal.classGoals _ = r' at hcut ⊢
    cases hcut with
    | same h =>
      cases r with
      | ok u s => exact .inl ⟨h, rfl, rfl⟩
      | error e s => exact .inl ⟨h, rfl, rfl⟩
    | full h hs =>
      cases r with
      | ok u s => exact .inr ⟨h, rfl, hs⟩
      | error e s => exact .inr ⟨h, rfl, hs⟩

end JackStack
