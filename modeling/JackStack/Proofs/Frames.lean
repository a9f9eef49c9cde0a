import JackStack.Proofs.Cells

/-!
# Proofs/Frames — opening and closing a frame, wherever it lies

A scene knows where its frames lie. Here only the four registers are looked at: what a call leaves
in the cells if it gets through, from any place of the stack above the registers, and what a return
makes of cells that it finds as the call has left them.

    | arguments | return, local, argument, this, that | locals
    ^ argument base                                   ^ local base

* `Grown` — values have been pushed, and nothing else has changed.
* `Opened` — a frame has been opened; `opened_of_openFrame`: every call that gets through does so.
* `closed_of_closeFrame` — a return that gets through leaves the machine that it should, and it alone.
* `opened_of_step`, `bases_of_step`, `step_of_closeFrame` — calls of loaded functions and returns as
  steps of the machine.
-/

namespace JackStack.Machine

variable {α β : Type} {m m' m'' : Machine} {s n a b f : Nat} {x y z : Int16}

/-! ## What an operation that got through has done -/

/-- **A sequence gets through** exactly if its parts do, one after the other. -/
theorem yields_bind {op : Exec α} {g : α → Exec β} {y : β} :
    Yields (op >>= g) m y m'' ↔ ∃ x m', Yields op m x m' ∧ Yields (g x) m' y m'' := by
  refine ⟨fun h => ?_, fun ⟨x, m', hop, hg⟩ => hop.bind hg⟩
  cases hop : op m with
  | error fault =>
    rw [Yields, bind_eq_error hop] at h
    cases h
  | ok p =>
    have hp : Yields op m p.1 p.2 := hop
    rw [Yields, hp.bind_eq] at h
    exact ⟨p.1, p.2, hp, h⟩

theorem Yields.unique {op : Exec α} {x y : α} (h : Yields op m x m') (h' : Yields op m y m'') :
    x = y ∧ m' = m'' := by
  have := h.symm.trans h'
  cases this
  exact ⟨rfl, rfl⟩

theorem yields_lift_bind {e : Except Fault α} {g : α → Exec β} {y : β} :
    Yields ((liftM e : Exec α) >>= g) m y m' ↔ ∃ x, e = .ok x ∧ Yields (g x) m y m' := by
  refine ⟨fun h => ?_, fun ⟨x, he, hg⟩ => (Yields.lift he).bind hg⟩
  cases e with
  | error fault => cases h
  | ok x => exact ⟨x, rfl, h⟩

theorem yields_read {m' : Machine} : Yields (read a) m x m' ↔
    a < Layout.cells ∧ m.peek a = x ∧ m = m' := by
  constructor
  · intro h
    by_cases ha : a < Layout.cells
    · exact ⟨ha, (Yields.read ha).unique h⟩
    · rw [Yields, read, Vector.getElem?_eq_none (Nat.not_lt.1 ha)] at h
      cases h
  · rintro ⟨ha, rfl, rfl⟩
    exact Yields.read ha

theorem yields_write {u : Unit} :
    Yields (write a x) m u m' ↔ a < Layout.cells ∧ m.poke a x = m' := by
  constructor
  · intro h
    by_cases ha : a < Layout.cells
    · exact ⟨ha, ((Yields.write ha x).unique h).2⟩
    · rw [Yields, write, dif_neg ha] at h
      cases h
  · rintro ⟨ha, rfl⟩
    exact Yields.write ha x

theorem yields_read_bind {g : Int16 → Exec β} {y : β} :
    Yields (read a >>= g) m y m' ↔ a < Layout.cells ∧ Yields (g (m.peek a)) m y m' := by
  rw [yields_bind]
  constructor
  · rintro ⟨x, m₁, hread, h⟩
    obtain ⟨ha, rfl, rfl⟩ := yields_read.1 hread
    exact ⟨ha, h⟩
  · rintro ⟨ha, h⟩
    exact ⟨_, _, Yields.read ha, h⟩

theorem yields_write_bind {g : Unit → Exec β} {y : β} :
    Yields (write a x >>= g) m y m' ↔ a < Layout.cells ∧ Yields (g ()) (m.poke a x) y m' := by
  rw [yields_bind]
  constructor
  · rintro ⟨_, m₁, hwrite, h⟩
    obtain ⟨ha, rfl⟩ := yields_write.1 hwrite
    exact ⟨ha, h⟩
  · rintro ⟨ha, h⟩
    exact ⟨_, _, Yields.write ha x, h⟩

/-! ## Numbers -/

theorem toInt_bounds (x : Int16) : -32768 ≤ x.toInt ∧ x.toInt ≤ 32767 :=
  ⟨x.minValue_le_toInt, x.toInt_le⟩

/-- A number that fits in a cell is itself. -/
theorem fits_eq_ok (i : Int) :
    (if Int16.minValue.toInt ≤ i ∧ i ≤ Int16.maxValue.toInt then .ok (Int16.ofInt i)
      else .error .overflow : Except Fault Int16) = .ok z ↔ i = z.toInt := by
  have hmin : Int16.minValue.toInt = -32768 := rfl
  have hmax : Int16.maxValue.toInt = 32767 := rfl
  constructor
  · intro h
    split at h
    · next hrange =>
      rw [← Except.ok.inj h, Int16.toInt_ofInt_of_le (by omega) (by omega)]
    · cases h
  · rintro rfl
    have := toInt_bounds z
    rw [if_pos (by omega), Int16.ofInt_toInt]

theorem addExact_eq_ok : addExact x y = .ok z ↔ x.toInt + y.toInt = z.toInt :=
  fits_eq_ok _

theorem subExact_eq_ok : subExact x y = .ok z ↔ x.toInt - y.toInt = z.toInt :=
  fits_eq_ok _

/-- A number that is not negative is that of a cell. -/
theorem eq_ofNat (h : 0 ≤ x.toInt) : ∃ a < Layout.cells, x = Int16.ofNat a ∧ x.toInt = a := by
  obtain ⟨a, ha⟩ := Int.eq_ofNat_of_zero_le h
  have hlt : a < Layout.cells := by
    have := (toInt_bounds x).2
    change a < 32768
    omega
  exact ⟨a, hlt, Int16.toInt_inj.1 (by rw [ha, Int16.toInt_ofNat_of_lt hlt]), ha⟩

theorem toAddress_eq_ok : toAddress x = .ok a ↔ a < Layout.cells ∧ x = Int16.ofNat a := by
  constructor
  · intro h
    rw [toAddress] at h
    split at h
    · next k hk =>
      cases h
      obtain ⟨b, hb, hx, hxb⟩ := eq_ofNat (x := x) (by rw [hk]; exact Int.natCast_nonneg a)
      obtain rfl : a = b := Int.ofNat.inj (hk.symm.trans hxb)
      exact ⟨hb, hx⟩
    · cases h
  · rintro ⟨ha, rfl⟩
    exact toAddress_ofNat ha

/-! ## Values on the stack -/

/-- **Values have been pushed** on a stack that stood at `s`: they lie there in their order, and no
other cell has changed but the stack pointer. -/
structure Grown (s : Nat) (xs : List Int16) (m m' : Machine) : Prop where
  code : m'.code = m.code
  sp : m'.peek Layout.sp = Int16.ofNat (s + xs.length)
  values : m'.Holds s xs
  others : ∀ a, a ≠ Layout.sp → a < s ∨ s + xs.length ≤ a → m'.peek a = m.peek a

namespace Grown

variable {xs ys : List Int16}

theorem nil (hsp : m.peek Layout.sp = Int16.ofNat s) : Grown s [] m m where
  code := rfl
  sp := hsp
  values := by intro i x hi; cases hi
  others := fun _ _ _ => rfl

theorem append (h : Grown s xs m m') (h' : Grown (s + xs.length) ys m' m'') (h₀ : Layout.sp < s) :
    Grown s (xs ++ ys) m m'' where
  code := h'.code.trans h.code
  sp := by rw [h'.sp, List.length_append, Nat.add_assoc]
  values := by
    intro i x hi
    by_cases hlt : i < xs.length
    · rw [List.getElem?_append_left hlt] at hi
      rw [h'.others (s + i) (by omega) (.inl (by omega))]
      exact h.values i x hi
    · rw [List.getElem?_append_right (Nat.not_lt.1 hlt)] at hi
      have := h'.values _ x hi
      rwa [show s + xs.length + (i - xs.length) = s + i by omega] at this
  others a ha hrange := by
    rw [List.length_append] at hrange
    rw [h'.others a ha (by omega), h.others a ha (by omega)]

end Grown

/-- **A push that gets through** finds room for the value. -/
theorem grown_of_push {u : Unit} (h : Yields (push x) m u m')
    (hsp : m.peek Layout.sp = Int16.ofNat s) (h₀ : Layout.sp < s) (hs : s < Layout.cells) :
    s + 1 < Layout.cells ∧ Grown s [x] m m' := by
  have hlt : s + 1 < Layout.cells := by
    obtain ⟨-, h⟩ := yields_read_bind.1 h
    obtain ⟨a, ha, h⟩ := yields_lift_bind.1 h
    rw [hsp, toAddress_ofNat hs] at ha
    cases ha
    obtain ⟨-, h⟩ := yields_write_bind.1 h
    obtain ⟨-, h⟩ := yields_read_bind.1 h
    obtain ⟨top, htop, -⟩ := yields_lift_bind.1 h
    rw [addExact_eq_ok, peek_poke_of_ne (Nat.ne_of_lt h₀), hsp, Int16.toInt_ofNat_of_lt hs] at htop
    have hone : (1 : Int16).toInt = 1 := rfl
    have := (toInt_bounds top).2
    change s + 1 < 32768
    omega
  obtain ⟨-, rfl⟩ := (Yields.push hsp h₀ hlt x).unique h
  refine ⟨hlt, rfl, peek_sp_pushed, ?_, fun a ha hrange => ?_⟩
  · intro i y hi
    obtain ⟨rfl, rfl⟩ : i = 0 ∧ x = y := by cases i <;> simp_all
    exact peek_top_pushed h₀ hs
  · rw [pushed, peek_poke_of_ne ha, peek_poke_of_ne]
    simp only [List.length_singleton] at hrange
    omega

theorem grown_of_pushMany {u : Unit} (h : Yields (pushMany x n) m u m')
    (hsp : m.peek Layout.sp = Int16.ofNat s) (h₀ : Layout.sp < s) (hs : s < Layout.cells) :
    s + n < Layout.cells ∧ Grown s (List.replicate n x) m m' := by
  induction n generalizing m s with
  | zero =>
    cases h
    exact ⟨hs, .nil hsp⟩
  | succ n ih =>
    obtain ⟨_, m₁, hpush, hrest⟩ := yields_bind.1 h
    obtain ⟨hlt, h₁⟩ := grown_of_push hpush hsp h₀ hs
    obtain ⟨hlt', h₂⟩ := ih hrest h₁.sp (Nat.lt_succ_of_lt h₀) hlt
    exact ⟨by rw [List.length_singleton] at hlt'; omega, h₁.append h₂ h₀⟩

/-- **Cells below the stack are pushed**, none of which is the stack pointer. -/
theorem grown_of_pushCells {cells : List Nat} {u : Unit} (h : Yields (pushCells cells) m u m')
    (hsp : m.peek Layout.sp = Int16.ofNat s) (h₀ : Layout.sp < s) (hs : s < Layout.cells)
    (hcells : ∀ c ∈ cells, c ≠ Layout.sp ∧ c < s) :
    s + cells.length < Layout.cells ∧ Grown s (cells.map m.peek) m m' := by
  induction cells generalizing m s with
  | nil =>
    cases h
    exact ⟨hs, .nil hsp⟩
  | cons c cells ih =>
    obtain ⟨-, h⟩ := yields_read_bind.1 h
    obtain ⟨_, m₁, hpush, hrest⟩ := yields_bind.1 h
    obtain ⟨hlt, h₁⟩ := grown_of_push hpush hsp h₀ hs
    have hbelow : ∀ d ∈ cells, d ≠ Layout.sp ∧ d < s := fun d hd =>
      hcells d (List.mem_cons_of_mem _ hd)
    obtain ⟨hlt', h₂⟩ := ih hrest h₁.sp (Nat.lt_succ_of_lt h₀) hlt fun d hd =>
      ⟨(hbelow d hd).1, Nat.lt_succ_of_lt (hbelow d hd).2⟩
    have hsame : cells.map m₁.peek = cells.map m.peek :=
      List.map_congr_left fun d hd => h₁.others d (hbelow d hd).1 (.inl (hbelow d hd).2)
    rw [hsame] at h₂
    rw [List.length_singleton] at hlt'
    exact ⟨by rw [List.length_cons]; omega, h₁.append h₂ h₀⟩

/-! ## Opening a frame -/

/-- The cells that a call puts on the stack: the return address and the four bases. -/
def callCells (returnTo : Int16) (m : Machine) : List Int16 :=
  returnTo :: Layout.saved.map m.peek

/-- The return address and the four bases lie on the stack. -/
theorem grown_callCells {m₁ : Machine} {u v : Unit} (hpush : Yields (push x) m u m₁)
    (hcells : Yields (pushCells Layout.saved) m₁ v m') (hsp : m.peek Layout.sp = Int16.ofNat s)
    (h₀ : Layout.that < s) (hs : s < Layout.cells) :
    s + 5 < Layout.cells ∧ Grown s (callCells x m) m m' := by
  have hregisters : ∀ c ∈ Layout.saved, c ≠ Layout.sp ∧ c < s := by
    have hbounds : ∀ c ∈ Layout.saved, c ≠ Layout.sp ∧ c ≤ Layout.that := by decide
    exact fun c hc => ⟨(hbounds c hc).1, Nat.lt_of_le_of_lt (hbounds c hc).2 h₀⟩
  have hpos : Layout.sp < s := Nat.lt_of_le_of_lt (by decide) h₀
  obtain ⟨hlt, h₁⟩ := grown_of_push hpush hsp hpos hs
  obtain ⟨hlt, h₂⟩ := grown_of_pushCells hcells h₁.sp (Nat.lt_succ_of_lt hpos) hlt fun c hc =>
    ⟨(hregisters c hc).1, Nat.lt_succ_of_lt (hregisters c hc).2⟩
  have hsame : Layout.saved.map m₁.peek = Layout.saved.map m.peek :=
    List.map_congr_left fun c hc => h₁.others c (hregisters c hc).1 (.inl (hregisters c hc).2)
  rw [hsame] at h₂
  exact ⟨hlt, h₁.append h₂ hpos⟩

/-- **A frame has been opened** on a stack that stood at `s`, for so many arguments. -/
structure Opened (s : Nat) (returnTo arguments : Int16) (m m' : Machine) : Prop where
  code : m'.code = m.code
  sp : m'.peek Layout.sp = Int16.ofNat (s + 5)
  lcl : m'.peek Layout.lcl = Int16.ofNat (s + 5)
  arg : (m'.peek Layout.arg).toInt = s - arguments.toInt
  frame : m'.Holds s (callCells returnTo m)
  others : ∀ a, Layout.arg < a → a < s ∨ s + 5 ≤ a → m'.peek a = m.peek a

/-- **A call that gets through**, from above the registers, has opened a frame. -/
theorem opened_of_openFrame {u : Unit} (h : Yields (openFrame x y) m u m')
    (hsp : m.peek Layout.sp = Int16.ofNat s) (h₀ : Layout.that < s) (hs : s < Layout.cells) :
    s + 5 < Layout.cells ∧ Opened s x y m m' := by
  obtain ⟨_, m₁, hpush, h⟩ := yields_bind.1 h
  obtain ⟨_, m₂, hcells, h⟩ := yields_bind.1 h
  obtain ⟨hlt, hgrown⟩ := grown_callCells hpush hcells hsp h₀ hs
  obtain ⟨-, h⟩ := yields_read_bind.1 h
  obtain ⟨top, htop, h⟩ := yields_lift_bind.1 h
  obtain ⟨base, hbase, h⟩ := yields_lift_bind.1 h
  obtain ⟨-, h⟩ := yields_write_bind.1 h
  obtain ⟨-, h⟩ := yields_read_bind.1 h
  obtain ⟨-, rfl⟩ := yields_write.1 h
  have hstack : m₂.peek Layout.sp = Int16.ofNat (s + 5) := hgrown.sp
  refine ⟨hlt, hgrown.code, ?_, ?_, ?_, ?_, ?_⟩
  · rw [peek_poke_of_ne (by decide), peek_poke_of_ne (by decide), hstack]
  · rw [peek_poke_self (by decide), peek_poke_of_ne (by decide), hstack]
  · have hfive : (5 : Int16).toInt = 5 := rfl
    have hsum : (Int16.ofNat (s + 5)).toInt = s + 5 := Int16.toInt_ofNat_of_lt hlt
    rw [subExact_eq_ok, hstack, hsum] at htop
    rw [subExact_eq_ok, hfive] at hbase
    rw [peek_poke_of_ne (by decide), peek_poke_self (by decide)]
    omega
  · intro i v hi
    have hlow : Layout.arg < s + i := Nat.lt_add_right i (Nat.lt_trans (by decide) h₀)
    have hlcl : Layout.lcl < Layout.arg := by decide
    rw [peek_poke_of_ne (by omega), peek_poke_of_ne (by omega)]
    exact hgrown.values i v hi
  · intro a ha hrange
    have hlcl : Layout.lcl < Layout.arg := by decide
    have hzero : Layout.sp < Layout.arg := by decide
    rw [peek_poke_of_ne (by omega), peek_poke_of_ne (by omega)]
    exact hgrown.others a (by omega) hrange

/-! ## Closing a frame -/

theorem yields_pop : Yields pop m x m' ↔ ∃ top a, subExact (m.peek Layout.sp) 1 = .ok top ∧
    toAddress top = .ok a ∧ (m.poke Layout.sp top).peek a = x ∧ m.poke Layout.sp top = m' := by
  have hsp : Layout.sp < Layout.cells := by decide
  constructor
  · intro h
    obtain ⟨-, h⟩ := yields_read_bind.1 h
    obtain ⟨top, htop, h⟩ := yields_lift_bind.1 h
    obtain ⟨-, h⟩ := yields_write_bind.1 h
    obtain ⟨-, h⟩ := yields_read_bind.1 h
    obtain ⟨a, ha, h⟩ := yields_lift_bind.1 h
    rw [peek_poke_self hsp] at ha
    exact ⟨top, a, htop, ha, (yields_read.1 h).2⟩
  · rintro ⟨top, a, htop, ha, hx, rfl⟩
    refine (Yields.read hsp).bind ((Yields.lift htop).bind ((Yields.write hsp top).bind ?_))
    refine (Yields.read_eq hsp (peek_poke_self hsp top)).bind ((Yields.lift ha).bind ?_)
    exact Yields.read_eq (toAddress_eq_ok.1 ha).1 hx

/-- A pop moves the stack pointer and nothing else. -/
theorem peek_of_pop (h : Yields pop m x m') (ha : a ≠ Layout.sp) : m'.peek a = m.peek a := by
  obtain ⟨top, -, -, -, -, rfl⟩ := yields_pop.1 h
  exact peek_poke_of_ne ha top

/-- Where the code goes on does not matter to a pop. -/
theorem pop_next (h : Yields pop m x m') : ∃ m₁, Yields pop m.next x m₁ := by
  obtain ⟨top, a, htop, ha, hx, -⟩ := yields_pop.1 h
  exact ⟨_, yields_pop.2 ⟨top, a, htop, ha, hx, rfl⟩⟩

/-- **A return that gets through** leaves no other machine. -/
theorem closed_of_closeFrame (h : Yields closeFrame m y m')
    (hl : m.peek Layout.lcl = Int16.ofNat f) (hf : f < Layout.cells) (hlow : Layout.that + 5 < f)
    (ha : (m.peek Layout.arg).toInt + 5 ≤ f) :
    y = m.peek (f - 5) ∧
      ∃ b x m₁, b + 5 ≤ f ∧ Yields pop m x m₁ ∧ m' = m₁.closed f b x := by
  obtain ⟨b, x, m₁, harg, hpop⟩ : ∃ b x m₁, toAddress (m.peek Layout.arg) = .ok b ∧
      Yields pop m x m₁ := by
    obtain ⟨-, h⟩ := yields_read_bind.1 h
    obtain ⟨_, -, h⟩ := yields_lift_bind.1 h
    obtain ⟨_, -, h⟩ := yields_lift_bind.1 h
    obtain ⟨-, h⟩ := yields_read_bind.1 h
    obtain ⟨x, m₁, hpop, h⟩ := yields_bind.1 h
    obtain ⟨-, h⟩ := yields_read_bind.1 h
    obtain ⟨b, hb, -⟩ := yields_lift_bind.1 h
    rw [peek_of_pop hpop (by decide)] at hb
    exact ⟨b, x, m₁, hb, hpop⟩
  obtain ⟨hb, harg⟩ := toAddress_eq_ok.1 harg
  have hroom : b + 5 ≤ f := by
    rw [harg, Int16.toInt_ofNat_of_lt hb] at ha
    omega
  obtain ⟨rfl, rfl⟩ := h.unique (Yields.closeFrame hl hf hlow
    ((peek_of_pop hpop (by decide)).trans harg) hroom hpop)
  exact ⟨rfl, b, x, m₁, hroom, hpop, rfl⟩

@[simp] theorem peek_lcl_closed : (m.closed f b x).peek Layout.lcl = m.peek (f - 4) :=
  peek_poke_self (by decide) _

@[simp] theorem peek_arg_closed : (m.closed f b x).peek Layout.arg = m.peek (f - 3) := by
  rw [closed, peek_poke_of_ne (by decide), peek_poke_self (by decide)]

@[simp] theorem peek_this_closed : (m.closed f b x).peek Layout.this = m.peek (f - 2) := by
  rw [closed, peek_poke_of_ne (by decide), peek_poke_of_ne (by decide), peek_poke_self (by decide)]

@[simp] theorem peek_that_closed : (m.closed f b x).peek Layout.that = m.peek (f - 1) := by
  rw [closed, peek_poke_of_ne (by decide), peek_poke_of_ne (by decide), peek_poke_of_ne (by decide),
    peek_poke_self (by decide)]

@[simp] theorem peek_sp_closed : (m.closed f b x).peek Layout.sp = Int16.ofNat (b + 1) := by
  rw [closed, peek_poke_of_ne (by decide), peek_poke_of_ne (by decide), peek_poke_of_ne (by decide),
    peek_poke_of_ne (by decide), peek_poke_self (by decide)]

theorem peek_result_closed (hb : Layout.that < b) (hlt : b < Layout.cells) :
    (m.closed f b x).peek b = x := by
  have hregister : ∀ (m : Machine) (y : Int16), ∀ c ≤ Layout.that, (m.poke c y).peek b = m.peek b :=
    fun m y c hc => peek_poke_of_ne (by omega) y
  rw [closed, hregister _ _ _ (by decide), hregister _ _ _ (by decide), hregister _ _ _ (by decide),
    hregister _ _ _ (by decide), hregister _ _ _ (by decide), peek_poke_self hlt]

/-! ## Steps -/

theorem execute_of_step {i : Instr} {returned : Bool} (h : Yields step m returned m')
    (hcode : m.code[m.pc]? = some i) : Yields (execute i) m.next returned m' := by
  obtain ⟨j, m₁, hfetch, h⟩ := yields_bind.1 h
  have hi : Yields fetch m i m.next := by
    rw [Yields, fetch, hcode]
    rfl
  obtain ⟨rfl, rfl⟩ := hi.unique hfetch
  exact h

/-- **A call of a loaded function** that gets through, from above the registers, opens a frame and
goes on at the function. -/
theorem opened_of_step {name : String} {returned : Bool} (h : Yields step m returned m')
    (hcode : m.code[m.pc]? = some (.call name n)) (hname : builtIn? name = none)
    (hsp : m.peek Layout.sp = Int16.ofNat s) (h₀ : Layout.that < s) (hs : s < Layout.cells) :
    s + 5 < Layout.cells ∧ Opened s (Int16.ofNat (m.pc + 1)) (Int16.ofNat n) m m' ∧
      m.functions.lookup name = some m'.pc := by
  obtain ⟨_, m₂, hinvoke, h⟩ := yields_bind.1 (execute_of_step h hcode)
  cases h
  rw [invoke, hname] at hinvoke
  obtain ⟨_, _, hget, hinvoke⟩ := yields_bind.1 hinvoke
  cases hget
  cases hlookup : m.next.functions.lookup name with
  | none =>
    rw [hlookup] at hinvoke
    cases hinvoke
  | some target =>
    rw [hlookup] at hinvoke
    obtain ⟨_, _, hget, hinvoke⟩ := yields_bind.1 hinvoke
    cases hget
    obtain ⟨_, m₁, hopen, hjump⟩ := yields_bind.1 hinvoke
    cases hjump
    obtain ⟨hlt, ho⟩ := opened_of_openFrame hopen hsp h₀ hs
    exact ⟨hlt, ⟨ho.code, ho.sp, ho.lcl, ho.arg, ho.frame, ho.others⟩, hlookup⟩

/-- **A return** that gets through, other than that of the first call, closes a frame. -/
theorem closeFrame_of_step (h : Yields step m false m') (hcode : m.code[m.pc]? = some .leave) :
    ∃ returnTo m₁, Yields closeFrame m.next returnTo m₁ ∧ ∀ a, m'.peek a = m₁.peek a := by
  obtain ⟨returnTo, m₁, hclose, h⟩ := yields_bind.1 (execute_of_step h hcode)
  split at h
  · cases h
  · obtain ⟨target, -, h⟩ := yields_lift_bind.1 h
    obtain ⟨_, _, hjump, h⟩ := yields_bind.1 h
    cases hjump
    cases h
    exact ⟨returnTo, m₁, hclose, fun _ => rfl⟩

/-- It takes the bases of locals and arguments out of the frame. -/
theorem bases_of_step (h : Yields step m false m') (hcode : m.code[m.pc]? = some .leave)
    (hl : m.peek Layout.lcl = Int16.ofNat f) (hf : f < Layout.cells) (hlow : Layout.that + 5 < f)
    (ha : (m.peek Layout.arg).toInt + 5 ≤ f) :
    m'.peek Layout.lcl = m.peek (f - 4) ∧ m'.peek Layout.arg = m.peek (f - 3) := by
  have hzero : Layout.sp = 0 := rfl
  have hnext : ∀ a, m.next.peek a = m.peek a := fun _ => rfl
  obtain ⟨returnTo, m₁, hclose, hpeek⟩ := closeFrame_of_step h hcode
  obtain ⟨-, b, x, m₂, -, hpop, rfl⟩ := closed_of_closeFrame hclose hl hf hlow ha
  rw [hpeek, hpeek, peek_lcl_closed, peek_arg_closed, peek_of_pop hpop (by omega),
    peek_of_pop hpop (by omega), hnext, hnext]
  exact ⟨rfl, rfl⟩

/-- **A return gets through** if its call has left it the place to go on at. -/
theorem step_of_closeFrame {target : Nat} (hcode : m.code[m.pc]? = some .leave)
    (h : Yields closeFrame m.next (Int16.ofNat target) m') (ht : target < Layout.cells) :
    ∃ m'', Yields step m false m'' ∧ m''.pc = target ∧ ∀ a, m''.peek a = m'.peek a := by
  have hhalt : Int16.ofNat target ≠ Layout.halt := by
    intro heq
    have hminus : Layout.halt.toInt = -1 := rfl
    rw [← heq, Int16.toInt_ofNat_of_lt ht] at hminus
    omega
  refine ⟨{ m' with pc := target }, Yields.step hcode (h.bind ?_), rfl, fun _ => rfl⟩
  rw [if_neg hhalt]
  refine (Yields.lift (toAddress_ofNat ht)).bind ?_
  exact Yields.bind (x := ()) rfl (Yields.pure false)

end JackStack.Machine
