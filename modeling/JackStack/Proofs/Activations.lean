import JackStack.Proofs.Frames

/-!
# Proofs/Activations — a call and the return that belongs to it

A call of a loaded function opens a frame, and the run goes on in the function, which may call
others, jump and move the bases of objects and arrays. Along the run a list is kept of the frames
that are open, the latest first; the run comes to the return of the call when it stands at a return
and no other frame is open.

Frames lie in the same cells as all else, so a program can spoil them. If no step changes a cell of
a frame that stays open, and some care is taken with calls, the return finds what the call has left.

* `follow` — a run of so many steps, with the frames that are open.
* `Care` — what a program has to heed besides the frames.
* `Linked` — each open frame leads to the one before it; `Linked.step` and `Linked.follow`: a step
  and a run keep it so.
* `call_resumes` — the caller goes on behind the call, with its bases and the result.
* `resumes_careless` — no care can be left out.
-/

namespace JackStack.Machine

open Vm (Command)

variable {m m' m₀ m₁ : Machine} {s n f i : Nat}

/-! ## Open frames along a run -/

/-- **What the next instruction does to frames**: it opens one for a call with so many arguments,
closes one, calls a built-in function, or does something else. -/
inductive Turn where
  | opens (arguments : Nat)
  | closes
  | builtIn
  | other

def turn (m : Machine) : Turn :=
  match m.code[m.pc]? with
  | some (.call name arguments) =>
    if (builtIn? name).isNone then .opens arguments else .builtIn
  | some .leave => .closes
  | _ => .other

theorem turn_eq_opens :
    m.turn = .opens n ↔ ∃ name, m.code[m.pc]? = some (.call name n) ∧ builtIn? name = none := by
  constructor
  · intro h
    rw [turn] at h
    split at h
    · next name arguments hcode =>
      split at h
      · next hname =>
        cases h
        exact ⟨name, hcode, Option.isNone_iff_eq_none.1 hname⟩
      · cases h
    · cases h
    · cases h
  · rintro ⟨name, hcode, hname⟩
    rw [turn, hcode]
    simp only [hname, Option.isNone_none, if_true]

theorem turn_eq_closes : m.turn = .closes ↔ m.code[m.pc]? = some .leave := by
  constructor
  · intro h
    rw [turn] at h
    split at h
    · split at h <;> cases h
    · next hcode => exact hcode
    · cases h
  · intro hcode
    rw [turn, hcode]

/-- The frames that the next instruction does not close. -/
def staying (m : Machine) (live : List Nat) : List Nat :=
  match m.turn with
  | .closes => live.tail
  | _ => live

/-- **The frames that are open behind a step**, each by the base of its locals. -/
def openAfter (live : List Nat) (m m' : Machine) : List Nat :=
  match m.turn with
  | .opens _ => (m'.peek Layout.lcl).toUInt16.toNat :: live
  | _ => m.staying live

/-- **No cell of the frames has changed**: no return address, and none of the four bases. -/
def KeepsFrames (frames : List Nat) (m m' : Machine) : Prop :=
  ∀ f ∈ frames, ∀ i < 5, m'.peek (f - 5 + i) = m.peek (f - 5 + i)

instance (frames : List Nat) (m m' : Machine) : Decidable (KeepsFrames frames m m') :=
  inferInstanceAs (Decidable (∀ f ∈ frames, ∀ i < 5, m'.peek (f - 5 + i) = m.peek (f - 5 + i)))

/-- The bases of locals and arguments are the same. -/
def KeepsBases (m m' : Machine) : Prop :=
  m'.peek Layout.lcl = m.peek Layout.lcl ∧ m'.peek Layout.arg = m.peek Layout.arg

instance (m m' : Machine) : Decidable (KeepsBases m m') :=
  inferInstanceAs (Decidable (_ ∧ _))

/-- **What a program heeds**, besides the frames that are open. -/
structure Care where
  /-- A loaded function is called only with the stack above the registers. -/
  above : Bool
  /-- A loaded function is called only with as many arguments as a cell can count. -/
  counted : Bool
  /-- A built-in function leaves the bases of locals and arguments alone. -/
  builtIns : Bool

namespace Care

/-- All that can be heeded. -/
def full : Care := ⟨true, true, true⟩

/-- **The steps that are allowed.** Besides returns and calls of loaded functions none moves the
bases of locals and arguments. -/
def permits (c : Care) (m m' : Machine) : Bool :=
  match m.turn with
  | .opens arguments =>
    (c.above → Layout.that < (m.peek Layout.sp).toInt) ∧ (c.counted → arguments < Layout.cells)
  | .closes => true
  | .builtIn => c.builtIns → KeepsBases m m'
  | .other => KeepsBases m m'

end Care

/-- **Follows a run** for so many steps, with the frames that are open. It breaks off at a fault, at
a step that is not allowed or changes a frame that stays open, and where the last frame is closed.
-/
def follow (c : Care) : Nat → List Nat → Machine → Option (List Nat × Machine)
  | 0, live, m => some (live, m)
  | k + 1, live, m =>
    match step m with
    | .ok (false, m') =>
      if c.permits m m' ∧ KeepsFrames (m.staying live) m m' ∧ openAfter live m m' ≠ [] then
        follow c k (openAfter live m m') m'
      else none
    | _ => none

theorem follow_succ {c : Care} {k : Nat} {live : List Nat} {r : List Nat × Machine}
    (h : follow c (k + 1) live m = some r) :
    ∃ m', Yields step m false m' ∧ c.permits m m' ∧ KeepsFrames (m.staying live) m m' ∧
      openAfter live m m' ≠ [] ∧ follow c k (openAfter live m m') m' = some r := by
  rw [follow] at h
  split at h
  · next m' hstep =>
    split at h
    · next hc => exact ⟨m', hstep, hc.1, hc.2.1, hc.2.2, h⟩
    · cases h
  · cases h

/-- Less care allows more. -/
theorem Care.permits_mono {c c' : Care} (ha : c'.above → c.above) (hc : c'.counted → c.counted)
    (hb : c'.builtIns → c.builtIns) (h : c.permits m m') : c'.permits m m' := by
  unfold Care.permits at h ⊢
  cases hturn : m.turn with
  | opens n =>
    rw [hturn] at h
    simp only [decide_eq_true_eq] at h ⊢
    exact ⟨fun hle => h.1 (ha hle), fun hle => h.2 (hc hle)⟩
  | closes => rfl
  | builtIn =>
    rw [hturn] at h
    simp only [decide_eq_true_eq] at h ⊢
    exact fun hle => h (hb hle)
  | other =>
    rw [hturn] at h
    exact h

theorem follow_mono {c c' : Care} (hc : ∀ m m', c.permits m m' → c'.permits m m') {k : Nat}
    {live : List Nat} {r : List Nat × Machine} (h : follow c k live m = some r) :
    follow c' k live m = some r := by
  induction k generalizing live m with
  | zero => exact h
  | succ k ih =>
    obtain ⟨m', hstep, hp, hk, hne, hrest⟩ := follow_succ h
    rw [follow, show step m = _ from hstep]
    exact (if_pos ⟨hc m m' hp, hk, hne⟩).trans (ih hrest)

/-! ## Frames lead to one another -/

/-- **Each open frame leads to the one before it.** The bases of locals and arguments are those of
the latest frame, and in its cells lie those of the frame before. The first frame, at `base`, has
its arguments at `arg`, and holds what the call has left in it. -/
inductive Linked (base : Nat) (arg : Int16) (cells : List Int16) (m : Machine) :
    Int16 → Int16 → List Nat → Prop
  | first (hlength : cells.length = 5) (h : m.Holds (base - 5) cells) :
    Linked base arg cells m (Int16.ofNat base) arg [base]
  | nested {f : Nat} {a : Int16} {live : List Nat} (hlow : Layout.that + 5 < f)
    (hlt : f < Layout.cells) (ha : a.toInt + 5 ≤ f)
    (h : Linked base arg cells m (m.peek (f - 4)) (m.peek (f - 3)) live) :
    Linked base arg cells m (Int16.ofNat f) a (f :: live)

namespace Linked

variable {base : Nat} {arg l a : Int16} {cells : List Int16} {live : List Nat}

/-- Only the cells of the frames matter. -/
theorem congr (h : Linked base arg cells m l a live) (hk : KeepsFrames live m m') :
    Linked base arg cells m' l a live := by
  induction h with
  | first hlength hcells =>
    refine .first hlength fun i x hi => ?_
    have hlt : i < 5 := hlength ▸ (List.getElem?_eq_some_iff.1 hi).1
    rw [hk base List.mem_cons_self i hlt]
    exact hcells i x hi
  | @nested f a live hlow hlt ha h ih =>
    have h₁ := hk f List.mem_cons_self 1 (by decide)
    have h₂ := hk f List.mem_cons_self 2 (by decide)
    rw [show f - 5 + 1 = f - 4 by omega] at h₁
    rw [show f - 5 + 2 = f - 3 by omega] at h₂
    refine .nested hlow hlt ha ?_
    rw [h₁, h₂]
    exact ih fun g hg => hk g (List.mem_cons_of_mem _ hg)

/-- **A call** puts a frame in front that leads to the latest one. -/
theorem opens {returnTo arguments : Int16}
    (h : Linked base arg cells m (m.peek Layout.lcl) (m.peek Layout.arg) live)
    (hk : KeepsFrames live m m') (ho : Opened s returnTo arguments m m') (hlow : Layout.that < s)
    (hlt : s + 5 < Layout.cells) (ha : 0 ≤ arguments.toInt) :
    Linked base arg cells m' (m'.peek Layout.lcl) (m'.peek Layout.arg) ((s + 5) :: live) := by
  rw [ho.lcl]
  refine .nested (by omega) hlt ?_ ?_
  · rw [ho.arg]
    push_cast
    omega
  · rw [show s + 5 - 4 = s + 1 by omega, show s + 5 - 3 = s + 2 by omega,
      ho.frame 1 _ rfl, ho.frame 2 _ rfl]
    exact h.congr hk

/-- **A return** takes the bases of the frame before the latest one. -/
theorem closes (h : Linked base arg cells m (m.peek Layout.lcl) (m.peek Layout.arg) live)
    (hstep : Yields Machine.step m false m') (hcode : m.code[m.pc]? = some .leave)
    (hk : KeepsFrames live.tail m m') (hne : live.tail ≠ []) :
    Linked base arg cells m' (m'.peek Layout.lcl) (m'.peek Layout.arg) live.tail := by
  generalize hl : m.peek Layout.lcl = l at h
  generalize ha : m.peek Layout.arg = a at h
  cases h with
  | first => exact absurd rfl hne
  | @nested f _ live hlow hlt hroom h =>
    obtain ⟨hlcl, harg⟩ := bases_of_step hstep hcode hl hlt hlow (ha ▸ hroom)
    rw [hlcl, harg]
    exact h.congr hk

/-- **A step** keeps frames linked. -/
theorem step (h : Linked base arg cells m (m.peek Layout.lcl) (m.peek Layout.arg) live)
    (hstep : Yields Machine.step m false m') (hp : Care.full.permits m m')
    (hk : KeepsFrames (m.staying live) m m') (hne : openAfter live m m' ≠ []) :
    Linked base arg cells m' (m'.peek Layout.lcl) (m'.peek Layout.arg) (openAfter live m m') := by
  rw [Care.permits] at hp
  rw [staying] at hk
  rw [openAfter, staying] at hne ⊢
  have hkept : KeepsBases m m' → KeepsFrames live m m' →
      Linked base arg cells m' (m'.peek Layout.lcl) (m'.peek Layout.arg) live := by
    rintro ⟨hl, ha⟩ hk
    rw [hl, ha]
    exact h.congr hk
  cases hturn : m.turn with
  | opens n =>
    obtain ⟨name, hcode, hname⟩ := turn_eq_opens.1 hturn
    rw [hturn] at hp hk
    obtain ⟨habove, hcount⟩ : Layout.that < (m.peek Layout.sp).toInt ∧ n < Layout.cells := by
      simpa [Care.full] using hp
    obtain ⟨s, hs, hsp, hint⟩ := eq_ofNat (x := m.peek Layout.sp) (by omega)
    obtain ⟨hlt, ho, -⟩ := opened_of_step hstep hcode hname hsp (by omega) hs
    rw [ho.lcl, toNat_ofNat hlt]
    refine ho.lcl ▸ h.opens hk ho (by omega) hlt ?_
    rw [Int16.toInt_ofNat_of_lt hcount]
    exact Int.natCast_nonneg n
  | closes =>
    rw [hturn] at hk hne
    exact h.closes hstep (turn_eq_closes.1 hturn) hk hne
  | builtIn =>
    rw [hturn] at hp hk
    exact hkept (by simpa [Care.full] using hp) hk
  | other =>
    rw [hturn] at hp hk
    exact hkept (by simpa using hp) hk

/-- **A run** keeps frames linked. -/
theorem follow {k : Nat} {live' : List Nat}
    (h : Linked base arg cells m (m.peek Layout.lcl) (m.peek Layout.arg) live)
    (hrun : Machine.follow .full k live m = some (live', m')) :
    Linked base arg cells m' (m'.peek Layout.lcl) (m'.peek Layout.arg) live' := by
  induction k generalizing live m with
  | zero =>
    cases hrun
    exact h
  | succ k ih =>
    obtain ⟨m₁, hstep, hp, hk, hne, hrest⟩ := follow_succ hrun
    exact ih (h.step hstep hp hk hne) hrest

theorem ne_nil (h : Linked base arg cells m l a live) : live ≠ [] := by
  cases h with
  | first => exact List.cons_ne_nil _ _
  | nested => exact List.cons_ne_nil _ _

/-- With one frame open, the bases are those of the first call. -/
theorem eq_of_single (h : Linked base arg cells m l a [f]) :
    l = Int16.ofNat base ∧ a = arg ∧ f = base ∧ m.Holds (base - 5) cells := by
  cases h with
  | first _ hcells => exact ⟨rfl, rfl, rfl, hcells⟩
  | nested _ _ _ h => exact absurd rfl h.ne_nil

end Linked

/-! ## Programs in their course -/

/-- **The machine behind an operation**; the same one if there is a fault. -/
def behind {α : Type} (op : Exec α) (m : Machine) : Machine :=
  match op m with
  | .ok (_, m') => m'
  | .error _ => m

theorem Yields.eq_behind {α : Type} {op : Exec α} {x : α} (h : Yields op m x m') :
    m.behind op = m' := by
  rw [Machine.behind, show op m = _ from h]

theorem yields_behind {α : Type} {op : Exec α} {x : α}
    (h : (op m).toOption.map Prod.fst = some x) : Yields op m x (m.behind op) := by
  cases hop : op m with
  | error fault =>
    rw [hop] at h
    cases h
  | ok p =>
    rw [hop] at h
    obtain rfl : p.1 = x := Option.some.inj h
    rw [Yields, behind, hop]

/-- The machine with commands loaded. -/
def holding (cs : List Command) : Machine where
  code := ((linkAll (labelPlaces "" 0 cs).reverse Layout.static "" cs).toOption.getD []).toArray
  functions := (functionPlaces 0 cs).reverse
  nextStatic := Layout.static + staticsFrom 0 cs

/-- **A program in its course**, so many steps behind the start of `Main.main`. -/
def begun (cs : List Command) (steps : Nat) : Machine :=
  (holding cs).behind do
    write Layout.sp (Int16.ofNat Layout.stack)
    openFrame Layout.halt 0
    jump (((holding cs).functions.lookup "Main.main").getD 0)
    runFor steps

theorem hasLoaded_begun {cs : List Command} {steps : Nat} (h : ∀ c ∈ cs, c.Legible)
    (hs : Layout.static + staticsFrom 0 cs < Text.Decimal.wordBound)
    (hl : (linkAll (labelPlaces "" 0 cs).reverse Layout.static "" cs).isOk)
    (hm : (begun cs steps).code = (holding cs).code ∧
      (begun cs steps).functions = (holding cs).functions) :
    (begun cs steps).HasLoaded [Vm.programText cs] := by
  cases hcode : linkAll (labelPlaces "" 0 cs).reverse Layout.static "" cs with
  | error fault =>
    rw [hcode] at hl
    cases hl
  | ok code =>
    have hload := load_programText h {} hs hcode
    refine ⟨_, by rw [List.foldlM_cons, hload]; rfl, hm.1.trans ?_, hm.2.trans ?_⟩
    · simp [holding, hcode, Except.toOption]
    · simp [holding]

/-- **The run behind a call comes to its return** in so many steps, with a value on top of the
stack, and the machine there has a property. -/
def comesBack (c : Care) (s k : Nat) (result : Int16) (m₁ : Machine) (p : Machine → Bool) : Bool :=
  (follow c k [s + 5] m₁).any fun r =>
    r.1 = [s + 5] ∧ r.2.code[r.2.pc]? = some .leave ∧
      (pop r.2).toOption.map Prod.fst = some result ∧ p r.2

theorem exists_of_comesBack {c : Care} {k : Nat} {result : Int16} {p : Machine → Bool}
    (h : comesBack c s k result m₁ p) :
    ∃ m₂, follow c k [s + 5] m₁ = some ([s + 5], m₂) ∧ m₂.code[m₂.pc]? = some .leave ∧
      Yields pop m₂ result (m₂.behind pop) ∧ p m₂ := by
  obtain ⟨⟨live, m₂⟩, hrun, h⟩ := (Option.any_eq_true _ _).1 h
  obtain ⟨rfl, hcode, hpop, hp⟩ := of_decide_eq_true h
  exact ⟨m₂, hrun, hcode, yields_behind hpop, hp⟩

/-! ## From the call to its return -/

/-- **A machine stands at a call** of a loaded function, with its arguments on a stack that ends at
`s`. -/
structure Calls (name : String) (n s : Nat) (m : Machine) : Prop where
  code : m.code[m.pc]? = some (.call name n)
  loaded : builtIn? name = none
  sp : m.peek Layout.sp = Int16.ofNat s
  room : Layout.stack + n ≤ s
  sp_lt : s < Layout.cells
  next_lt : m.pc + 1 < Layout.cells

instance (name : String) (n s : Nat) (m : Machine) : Decidable (m.Calls name n s) :=
  decidable_of_iff (m.code[m.pc]? = some (.call name n) ∧ (builtIn? name).isNone ∧
      m.peek Layout.sp = Int16.ofNat s ∧ Layout.stack + n ≤ s ∧ s < Layout.cells ∧
      m.pc + 1 < Layout.cells)
    ⟨fun ⟨hcode, hname, hsp, hroom, hlt, hnext⟩ =>
        ⟨hcode, Option.isNone_iff_eq_none.1 hname, hsp, hroom, hlt, hnext⟩,
      fun h => ⟨h.code, Option.isNone_iff_eq_none.2 h.loaded, h.sp, h.room, h.sp_lt, h.next_lt⟩⟩

/-- **A function has been entered** at its place: its arguments are the values that were pushed for
it, and as soon as its locals are made, they are all zero. -/
structure Entered (name : String) (n s : Nat) (m₀ m₁ : Machine) : Prop where
  place : m₀.functions.lookup name = some m₁.pc
  arguments : ∀ i < n, Yields (address .argument i) m₁ (s - n + i) m₁ ∧
    m₁.peek (s - n + i) = m₀.peek (s - n + i)
  locals : ∃ k, m₁.code[m₁.pc]? = some (.enter k) ∧ ∀ m₂, Yields step m₁ false m₂ →
    ∀ i < k, Yields (address .local i) m₂ (s + 5 + i) m₂ ∧ m₂.peek (s + 5 + i) = 0

/-- **A caller goes on** behind its call: it has its four bases, and the arguments have given way to
the result. -/
structure Resumes (n s : Nat) (result : Int16) (m₀ m' : Machine) : Prop where
  pc : m'.pc = m₀.pc + 1
  bases : ∀ c ∈ Layout.saved, m'.peek c = m₀.peek c
  sp : m'.peek Layout.sp = Int16.ofNat (s - n + 1)
  result : m'.peek (s - n) = result

instance (n s : Nat) (result : Int16) (m₀ m' : Machine) : Decidable (Resumes n s result m₀ m') :=
  decidable_of_iff (m'.pc = m₀.pc + 1 ∧ (∀ c ∈ Layout.saved, m'.peek c = m₀.peek c) ∧
      m'.peek Layout.sp = Int16.ofNat (s - n + 1) ∧ m'.peek (s - n) = result)
    ⟨fun h => ⟨h.1, h.2.1, h.2.2.1, h.2.2.2⟩, fun h => ⟨h.pc, h.bases, h.sp, h.result⟩⟩

/-- **A call returns** to its caller with the value on top of the stack, whenever the run behind it
comes to its return, with care. -/
def Returns (c : Care) (n s : Nat) (m₀ m₁ : Machine) : Prop :=
  ∀ k m₂, follow c k [s + 5] m₁ = some ([s + 5], m₂) → m₂.code[m₂.pc]? = some .leave →
    ∀ result m₃, Yields pop m₂ result m₃ → ∃ m', Yields step m₂ false m' ∧ Resumes n s result m₀ m'

namespace Calls

variable {name : String}

theorem above (h : m₀.Calls name n s) : Layout.that < s :=
  Nat.lt_of_lt_of_le (by decide) (Nat.le_of_add_right_le h.room)

/-- The frame is opened behind the arguments, and the run goes on at the function. -/
theorem opened (h : m₀.Calls name n s) (hstep : Yields step m₀ false m₁) :
    s + 5 < Layout.cells ∧ Opened s (Int16.ofNat (m₀.pc + 1)) (Int16.ofNat n) m₀ m₁ ∧
      m₁.peek Layout.arg = Int16.ofNat (s - n) ∧ m₀.functions.lookup name = some m₁.pc := by
  have hroom := h.room
  have hs := h.sp_lt
  obtain ⟨hlt, ho, hlookup⟩ := opened_of_step hstep h.code h.loaded h.sp h.above hs
  refine ⟨hlt, ho, Int16.toInt_inj.1 ?_, hlookup⟩
  rw [ho.arg, Int16.toInt_ofNat_of_lt (show n < Layout.cells by omega),
    Int16.toInt_ofNat_of_lt (show s - n < Layout.cells by omega)]
  omega

theorem entered (h : m₀.Calls name n s) (hm : m₀.Enterable) (hstep : Yields step m₀ false m₁) :
    Entered name n s m₀ m₁ := by
  have hroom := h.room
  have hs := h.sp_lt
  have hlow : Layout.arg < Layout.stack := by decide
  obtain ⟨hzero, hone, htwo⟩ : Layout.sp = 0 ∧ Layout.lcl = 1 ∧ Layout.arg = 2 := ⟨rfl, rfl, rfl⟩
  obtain ⟨hlt, ho, hbase, hlookup⟩ := h.opened hstep
  refine ⟨hlookup, fun i hi => ⟨?_, ho.others _ (by omega) (.inl (by omega))⟩, ?_⟩
  · have haddress : Yields (address .argument i) m₁ _ m₁ := Yields.indexed (by decide) hbase
    rwa [toNat_ofNat (by omega)] at haddress
  · obtain ⟨before, behind, hfunctions, -⟩ := List.lookup_eq_some_iff.1 hlookup
    obtain ⟨k, hk⟩ := hm (name, m₁.pc) (by simp [hfunctions])
    rw [← ho.code] at hk
    refine ⟨k, hk, fun m₂ hstep i hi => ?_⟩
    obtain ⟨_, m₃, hmany, hpure⟩ := yields_bind.1 (execute_of_step hstep hk)
    cases hpure
    obtain ⟨hlt, hgrown⟩ := grown_of_pushMany hmany ho.sp (by omega) hlt
    have hlcl : m₂.peek Layout.lcl = Int16.ofNat (s + 5) :=
      (hgrown.others _ (by decide) (.inl (by omega))).trans ho.lcl
    have haddress : Yields (address .local i) m₂ _ m₂ := Yields.indexed (by decide) hlcl
    rw [toNat_ofNat (by omega)] at haddress
    exact ⟨haddress, hgrown.values i 0 (by simp [hi])⟩

/-- **The return finds what the call has left**: the bases of the function and its frame. -/
theorem found {k : Nat} {m₂ : Machine} (h : m₀.Calls name n s) (hstep : Yields step m₀ false m₁)
    (hrun : follow .full k [s + 5] m₁ = some ([s + 5], m₂)) :
    m₂.peek Layout.lcl = Int16.ofNat (s + 5) ∧ m₂.peek Layout.arg = Int16.ofNat (s - n) ∧
      m₂.Holds s (callCells (Int16.ofNat (m₀.pc + 1)) m₀) := by
  obtain ⟨-, ho, hbase, -⟩ := h.opened hstep
  have hfirst : Linked (s + 5) (Int16.ofNat (s - n)) (callCells (Int16.ofNat (m₀.pc + 1)) m₀) m₁
      (m₁.peek Layout.lcl) (m₁.peek Layout.arg) [s + 5] := by
    rw [ho.lcl, hbase]
    exact .first rfl ho.frame
  obtain ⟨hlcl, harg, -, hcells⟩ := (hfirst.follow hrun).eq_of_single
  exact ⟨hlcl, harg, hcells⟩

theorem returns (h : m₀.Calls name n s) (hstep : Yields step m₀ false m₁) :
    Returns .full n s m₀ m₁ := by
  intro k m₂ hrun hcode result m₃ hpop
  have hroom := h.room
  have hzero : Layout.sp = 0 := rfl
  have hlow : Layout.that + 5 < Layout.stack := by decide
  obtain ⟨hlt, -⟩ := h.opened hstep
  obtain ⟨hlcl, harg, hsaved⟩ := h.found hstep hrun
  obtain ⟨m₄, hpop⟩ := pop_next hpop
  have hclose := Yields.closeFrame (m := m₂.next) hlcl hlt (by omega)
    ((peek_of_pop hpop (by decide)).trans harg) (by omega) hpop
  rw [show m₂.next.peek (s + 5 - 5) = _ from hsaved 0 _ rfl] at hclose
  have hpeek : ∀ i x, i < 5 → (callCells (Int16.ofNat (m₀.pc + 1)) m₀)[5 - i]? = some x →
      m₄.peek (s + 5 - i) = x := by
    intro i x hi hx
    rw [peek_of_pop hpop (by omega), show s + 5 - i = s + (5 - i) by omega]
    exact hsaved (5 - i) x hx
  obtain ⟨m', hreturn, hpc, hsame⟩ := step_of_closeFrame hcode hclose h.next_lt
  refine ⟨m', hreturn, hpc, ?_, (hsame _).trans peek_sp_closed, ?_⟩
  · simp only [Layout.saved, List.forall_mem_cons, hsame]
    refine ⟨?_, ?_, ?_, ?_, List.forall_mem_nil _⟩
    · exact peek_lcl_closed.trans (hpeek 4 _ (by decide) rfl)
    · exact peek_arg_closed.trans (hpeek 3 _ (by decide) rfl)
    · exact peek_this_closed.trans (hpeek 2 _ (by decide) rfl)
    · exact peek_that_closed.trans (hpeek 1 _ (by decide) rfl)
  · exact (hsame _).trans (peek_result_closed (by omega) (by omega))

end Calls

/-- **A call and the return that belongs to it.** The function finds its arguments and has its
locals zero. If the run comes to the return of the call, with all care and with no change to an open
frame, the caller goes on behind its call with the result. -/
theorem call_resumes {texts : List String} {name : String} (hm : m₀.HasLoaded texts)
    (h : m₀.Calls name n s) (hstep : Yields step m₀ false m₁) :
    Entered name n s m₀ m₁ ∧ Returns .full n s m₀ m₁ :=
  ⟨h.entered hm.enterable hstep, h.returns hstep⟩

/-- A function that moves the bases of objects and arrays around a call. -/
def nestedCalls : List Command :=
  [.function "Main.f" 1, .push .argument 0, .push .argument 1, .call "Main.g" 1, .pop .local 0,
    .push .constant 3000, .pop .pointer 0, .push .local 0, .arith .add, .return,
    .function "Main.g" 0, .push .constant 4000, .pop .pointer 1, .push .argument 0,
    .push .constant 1, .arith .add, .return,
    .function "Main.main" 0, .push .constant 10, .push .constant 20, .call "Main.f" 2, .return]

/-- A call inside of the call, between changes to the bases of objects and arrays. -/
theorem call_resumes_nested : ∃ m₀ m₁ m₂ m₃ m', m₀.HasLoaded [Vm.programText nestedCalls] ∧
    m₀.Calls "Main.f" 2 263 ∧ Yields step m₀ false m₁ ∧ Entered "Main.f" 2 263 m₀ m₁ ∧
    follow .full 16 [268] m₁ = some ([268], m₂) ∧ Yields pop m₂ 31 m₃ ∧
    Yields step m₂ false m' ∧ Resumes 2 263 31 m₀ m' := by
  have hloaded : (begun nestedCalls 3).HasLoaded [Vm.programText nestedCalls] :=
    hasLoaded_begun (by decide +kernel) (by decide +kernel) (by decide +kernel) (by decide +kernel)
  have hcalls : (begun nestedCalls 3).Calls "Main.f" 2 263 := by decide +kernel
  have hstep : Yields step (begun nestedCalls 3) false ((begun nestedCalls 3).behind step) :=
    yields_behind (by decide +kernel)
  have hback : comesBack .full 263 16 31 ((begun nestedCalls 3).behind step) fun _ => true := by
    decide +kernel
  obtain ⟨m₂, hrun, hleave, hpop, -⟩ := exists_of_comesBack hback
  obtain ⟨hentered, hreturns⟩ := call_resumes hloaded hcalls hstep
  obtain ⟨m', hreturn, hresumes⟩ := hreturns 16 m₂ hrun hleave 31 _ hpop
  exact ⟨_, _, m₂, _, m', hloaded, hcalls, hstep, hentered, hrun, hpop, hreturn, hresumes⟩

/-- The stack pointer goes into the registers before a call. -/
def lowStack : List Command :=
  [.function "Main.pad" 0, .push .constant 0, .return,
    .function "Main.main" 0, .push .constant 40, .call "Main.f" 0, .arith .add, .return,
    .function "Main.f" 0, .push .constant 0, .pop .pointer 1, .push .constant 2, .pop .that 0,
    .call "Main.g" 0, .push .constant 7, .return,
    .function "Main.g" 0, .push .constant 0, .return]

/-- A call with a number of arguments that a cell takes for negative. -/
def uncounted : List Command :=
  [.function "Main.main" 0, .push .constant 40, .call "Main.f" 0, .arith .add, .return,
    .function "Main.f" 0, .call "Main.g" 65535, .push .constant 7, .return,
    .function "Main.g" 0, .push .constant 261, .return]

/-- A built-in function takes the registers for a string. -/
def overwritten : List Command :=
  [.function "Main.main" 0, .push .constant 40, .push .constant 1, .push .constant 2,
    .push .constant 3, .push .constant 4, .push .constant 5, .call "Main.f" 5, .arith .add, .return,
    .function "Main.f" 0, .push .constant 30000, .pop .pointer 0, .push .constant 2,
    .push .constant 65, .call "String.appendChar" 2, .pop .temp 0, .push .constant 7, .return]

/-- **A care suffices** if with it every call returns. -/
def Care.Suffices (c : Care) : Prop :=
  ∀ (texts : List String) (name : String) (n s : Nat) (m₀ m₁ : Machine), m₀.HasLoaded texts →
    m₀.Calls name n s → Yields step m₀ false m₁ → Returns c n s m₀ m₁

theorem Care.Suffices.mono {c c' : Care} (ha : c.above → c'.above) (hc : c.counted → c'.counted)
    (hb : c.builtIns → c'.builtIns) (h : c.Suffices) : c'.Suffices := by
  intro texts name n s m₀ m₁ hm hcalls hstep k m₂ hrun
  exact h texts name n s m₀ m₁ hm hcalls hstep k m₂
    (follow_mono (fun m m' => Care.permits_mono ha hc hb) hrun)

/-- A program whose call comes to its return, and whose caller does not go on. -/
theorem Care.not_suffices {c : Care} {cs : List Command} {steps : Nat} {name : String} (k : Nat)
    (v : Int16) (hm : (begun cs steps).HasLoaded [Vm.programText cs])
    (hcalls : (begun cs steps).Calls name n s)
    (hstep : (step (begun cs steps)).toOption.map Prod.fst = some false)
    (hback : comesBack c s k v ((begun cs steps).behind step) fun m₂ =>
      ¬ Resumes n s v (begun cs steps) (m₂.behind step)) : ¬ c.Suffices := by
  intro h
  obtain ⟨m₂, hrun, hleave, hpop, hres⟩ := exists_of_comesBack hback
  obtain ⟨m', hreturn, hresumes⟩ :=
    h _ name n s _ _ hm hcalls (yields_behind hstep) k m₂ hrun hleave v _ hpop
  rw [hreturn.eq_behind] at hres
  exact of_decide_eq_true hres hresumes

theorem not_suffices_below : ¬ Care.Suffices ⟨false, true, true⟩ := by
  have hm : (begun lowStack 2).HasLoaded [Vm.programText lowStack] :=
    hasLoaded_begun (by decide +kernel) (by decide +kernel) (by decide +kernel) (by decide +kernel)
  have hcalls : (begun lowStack 2).Calls "Main.f" 0 262 := by decide +kernel
  exact Care.not_suffices 9 14 hm hcalls (by decide +kernel) (by decide +kernel)

theorem not_suffices_uncounted : ¬ Care.Suffices ⟨true, false, true⟩ := by
  have hm : (begun uncounted 2).HasLoaded [Vm.programText uncounted] :=
    hasLoaded_begun (by decide +kernel) (by decide +kernel) (by decide +kernel) (by decide +kernel)
  have hcalls : (begun uncounted 2).Calls "Main.f" 0 262 := by decide +kernel
  exact Care.not_suffices 6 7 hm hcalls (by decide +kernel) (by decide +kernel)

theorem not_suffices_overwritten : ¬ Care.Suffices ⟨true, true, false⟩ := by
  have hm : (begun overwritten 7).HasLoaded [Vm.programText overwritten] :=
    hasLoaded_begun (by decide +kernel) (by decide +kernel) (by decide +kernel) (by decide +kernel)
  have hcalls : (begun overwritten 7).Calls "Main.f" 5 267 := by decide +kernel
  exact Care.not_suffices 8 7 hm hcalls (by decide +kernel) (by decide +kernel)

/-- **No care can be left out**: with anything less there is a program that breaks. -/
theorem resumes_careless : ¬ ∃ c : Care, c ≠ .full ∧ c.Suffices := by
  rintro ⟨⟨above, counted, builtIns⟩, hne, h⟩
  cases above with
  | false => exact not_suffices_below (h.mono (by simp) (by simp) (by simp))
  | true =>
    cases counted with
    | false => exact not_suffices_uncounted (h.mono (by simp) (by simp) (by simp))
    | true =>
      cases builtIns with
      | false => exact not_suffices_overwritten h
      | true => exact hne rfl

end JackStack.Machine
