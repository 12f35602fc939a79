import HackVM.Proofs.Machine.Stack

namespace HackVM.Machine.Memory

open Asm

/-!
# Frames in memory

What the operations on the stack leave at every address, when the stack is where it should be: above
the registers and the variables, and not at the end of the memory.

* `Frame` and `frameBelow` — the five words that a call saves, and where they are;
* `read_pushAll`, `read_pushAll_of_outside` — pushes store words in order and nothing else;
* `frameBelow_enter`, `read_enter` — a call saves the caller's frame and leaves the rest alone;
* `read_leave` — what a return leaves at every address.
-/

/-- What a call saves: the return address and the caller's registers. -/
structure Frame where
  /-- The return address. -/
  back : Word
  /-- The caller's local variables. -/
  lcl : Word
  /-- The caller's arguments. -/
  arg : Word
  /-- The caller's segment `this`. -/
  this : Word
  /-- The caller's segment `that`. -/
  that : Word
  deriving DecidableEq, Repr

/-- The frame in the five words below an address. -/
def frameBelow (m : Memory) (base : Word) : Frame :=
  ⟨m.read (base - 5), m.read (base - 4), m.read (base - 3), m.read (base - 2), m.read (base - 1)⟩

/-- The frame that a call saves. -/
def callerFrame (m : Memory) (back : Word) : Frame :=
  ⟨back, m.get .lcl, m.get .arg, m.get .this, m.get .that⟩

theorem Agree.callerFrame {m m' : Memory} (h : Agree m m') (back : Word) :
    m.callerFrame back = m'.callerFrame back := by
  simp only [Memory.callerFrame, h.get .lcl (by decide), h.get .arg (by decide),
    h.get .this (by decide), h.get .that (by decide)]

/-! ### Pushes -/

variable {m : Memory}

theorem read_push (h : m.get .sp ≠ 0) (v a : Word) :
    (m.push v).read a = if a = 0 then m.get .sp + 1 else if a = m.get .sp then v else m.read a := by
  have hsp : (m.write (m.get .sp) v).get .sp = m.get .sp :=
    get_write_of_ne m v h
  rw [push, raise, set, read_write, hsp, read_write]
  simp only [Register.address, eq_comm]

theorem get_sp_push (h : m.get .sp ≠ 0) (v : Word) : (m.push v).get .sp = m.get .sp + 1 := by
  rw [get, read_push h]
  rfl

/-- Pushes words in order. -/
def pushAll (m : Memory) (values : List Word) : Memory :=
  values.foldl push m

theorem get_sp_pushAll (values : List Word) (hlo : 16 ≤ (m.get .sp).toNat)
    (hhi : (m.get .sp).toNat + values.length < 65536) :
    ((m.pushAll values).get .sp).toNat = (m.get .sp).toNat + values.length := by
  induction values generalizing m with
  | nil => rfl
  | cons v values ih =>
    rw [List.length_cons] at hhi ⊢
    have hsp : ((m.push v).get .sp).toNat = (m.get .sp).toNat + 1 := by
      rw [get_sp_push (by bv_omega)]
      bv_omega
    have hrest := ih (m := m.push v) (by omega) (by omega)
    rw [hsp] at hrest
    rw [show m.pushAll (v :: values) = (m.push v).pushAll values from rfl, hrest]
    omega

/-- Pushes change nothing below the stack pointer and above the words that they store. -/
theorem read_pushAll_of_outside (values : List Word) (hlo : 16 ≤ (m.get .sp).toNat)
    (hhi : (m.get .sp).toNat + values.length < 65536) {a : Word} (hzero : a ≠ 0)
    (ha : a.toNat < (m.get .sp).toNat ∨ (m.get .sp).toNat + values.length ≤ a.toNat) :
    (m.pushAll values).read a = m.read a := by
  induction values generalizing m with
  | nil => rfl
  | cons v values ih =>
    rw [List.length_cons] at hhi ha
    have hsp : ((m.push v).get .sp).toNat = (m.get .sp).toNat + 1 := by
      rw [get_sp_push (by bv_omega)]
      bv_omega
    have hrest := ih (m := m.push v) (by omega) (by omega) (by omega)
    rw [show m.pushAll (v :: values) = (m.push v).pushAll values from rfl, hrest,
      read_push (by bv_omega), if_neg hzero, if_neg (by bv_omega)]

theorem address_lt (r : Register) : r.address.toNat < 16 := by
  cases r <;> decide

/-- Pushes above the registers change none but the stack pointer. -/
theorem get_pushAll (values : List Word) (hlo : 16 ≤ (m.get .sp).toNat)
    (hhi : (m.get .sp).toNat + values.length < 65536) {r : Register} (hr : r ≠ .sp) :
    (m.pushAll values).get r = m.get r := by
  have hlt := address_lt r
  exact read_pushAll_of_outside values hlo hhi (fun h => hr (address_inj h)) (.inl (by omega))

theorem read_pushAll (values : List Word) (hlo : 16 ≤ (m.get .sp).toNat)
    (hhi : (m.get .sp).toNat + values.length < 65536) {i : Nat} {v : Word}
    (hv : values[i]? = some v) {a : Word} (ha : a.toNat = (m.get .sp).toNat + i) :
    (m.pushAll values).read a = v := by
  induction values generalizing m i with
  | nil => simp at hv
  | cons w values ih =>
    rw [List.length_cons] at hhi
    have hsp : ((m.push w).get .sp).toNat = (m.get .sp).toNat + 1 := by
      rw [get_sp_push (by bv_omega)]
      bv_omega
    rw [show m.pushAll (w :: values) = (m.push w).pushAll values from rfl]
    cases i with
    | zero =>
      -- The first word is stored by the first push; the others go above it.
      obtain rfl : w = v := by simpa using hv
      rw [read_pushAll_of_outside values (by omega) (by omega) (by bv_omega) (by omega),
        read_push (by bv_omega), if_neg (by bv_omega), if_pos (by bv_omega)]
    | succ i => exact ih (by omega) (by omega) (by simpa using hv) (by omega)

/-! ### Calls -/

section

variable (hlo : 16 ≤ (m.get .sp).toNat) (hhi : (m.get .sp).toNat + 5 < 65536)

include hlo hhi

/-- The registers that a call saves are the caller's: its own pushes do not change them. -/
theorem saveCaller_eq (back : Word) :
    m.saveCaller back =
      m.pushAll [back, m.get .lcl, m.get .arg, m.get .this, m.get .that] := by
  have hlcl : (m.push back).get .lcl = m.get .lcl :=
    get_pushAll [back] hlo (by simp; omega) (by decide)
  have harg : ((m.push back).push (m.get .lcl)).get .arg = m.get .arg :=
    get_pushAll [back, m.get .lcl] hlo (by simp; omega) (by decide)
  have hthis : (((m.push back).push (m.get .lcl)).push (m.get .arg)).get .this = m.get .this :=
    get_pushAll [back, m.get .lcl, m.get .arg] hlo (by simp; omega) (by decide)
  have hthat : ((((m.push back).push (m.get .lcl)).push (m.get .arg)).push (m.get .this)).get .that
      = m.get .that :=
    get_pushAll [back, m.get .lcl, m.get .arg, m.get .this] hlo (by simp; omega) (by decide)
  simp only [saveCaller, pushRegister, hlcl, harg, hthis, hthat]
  rfl

theorem get_sp_saveCaller (back : Word) : (m.saveCaller back).get .sp = m.get .sp + 5 := by
  have hsp := get_sp_pushAll [back, m.get .lcl, m.get .arg, m.get .this, m.get .that] hlo hhi
  rw [← saveCaller_eq hlo hhi] at hsp
  simp only [List.length_cons, List.length_nil] at hsp
  bv_omega

/-- A call changes three registers and stores five words, and nothing else. -/
theorem read_enter (back arguments : Word) {a : Word} (hregisters : 2 < a.toNat)
    (ha : a.toNat < (m.get .sp).toNat ∨ (m.get .sp).toNat + 5 ≤ a.toNat) :
    (m.enter back arguments).read a = m.read a := by
  have hlcl : Register.lcl.address ≠ a := by simp only [Register.address]; bv_omega
  have harg : Register.arg.address ≠ a := by simp only [Register.address]; bv_omega
  rw [enter, openFrame, read_set_of_ne _ _ hlcl, read_set_of_ne _ _ harg, saveCaller_eq hlo hhi]
  exact read_pushAll_of_outside _ hlo (by simpa using hhi) (by bv_omega) (by simpa using ha)

theorem get_sp_enter (back arguments : Word) :
    (m.enter back arguments).get .sp = m.get .sp + 5 := by
  rw [enter, openFrame, get_set_of_ne _ _ (by decide), get_set_of_ne _ _ (by decide),
    get_sp_saveCaller hlo hhi]

theorem get_lcl_enter (back arguments : Word) :
    (m.enter back arguments).get .lcl = m.get .sp + 5 := by
  rw [enter, openFrame, get_set_self, get_sp_saveCaller hlo hhi]

theorem get_arg_enter (back arguments : Word) :
    (m.enter back arguments).get .arg = m.get .sp - arguments := by
  rw [enter, openFrame, get_set_of_ne _ _ (by decide), get_set_self, get_sp_saveCaller hlo hhi]
  bv_omega

/-- **A call saves the caller's frame below the function's local variables.** -/
theorem frameBelow_enter (back arguments : Word) :
    (m.enter back arguments).frameBelow (m.get .sp + 5) = m.callerFrame back := by
  -- The registers `LCL` and `ARG`, set at the end, are not in the frame.
  have hcell : ∀ (i : Nat) (v : Word),
      [back, m.get .lcl, m.get .arg, m.get .this, m.get .that][i]? = some v →
      ∀ a : Word, a.toNat = (m.get .sp).toNat + i → (m.enter back arguments).read a = v := by
    intro i v hv a ha
    have hlcl : Register.lcl.address ≠ a := by simp only [Register.address]; bv_omega
    have harg : Register.arg.address ≠ a := by simp only [Register.address]; bv_omega
    rw [enter, openFrame, read_set_of_ne _ _ hlcl, read_set_of_ne _ _ harg, saveCaller_eq hlo hhi]
    exact read_pushAll _ hlo (by simpa using hhi) hv ha
  simp only [frameBelow, callerFrame, Frame.mk.injEq]
  exact ⟨hcell 0 _ rfl _ (by bv_omega), hcell 1 _ rfl _ (by bv_omega),
    hcell 2 _ rfl _ (by bv_omega), hcell 3 _ rfl _ (by bv_omega), hcell 4 _ rfl _ (by bv_omega)⟩

end

/-! ### Returns -/

/-- The caller's registers are restored from the frame as another memory has it, if that is the
    same; restoring one does not change what the next is restored from. -/
theorem restoreCaller_eq {m' : Memory} {frame : Word} (h : 20 ≤ frame.toNat)
    (hsame : ∀ i : Word, 1 ≤ i.toNat → i.toNat ≤ 4 → m'.read (frame - i) = m.read (frame - i)) :
    m'.restoreCaller frame =
      (((m'.set .that (m.frameBelow frame).that).set .this (m.frameBelow frame).this).set .arg
        (m.frameBelow frame).arg).set .lcl (m.frameBelow frame).lcl := by
  -- The frame lies above the registers.
  have hne : ∀ (r : Register) (i : Word), i.toNat ≤ 4 → r.address ≠ frame - i := by
    intro r i hi
    have hr := address_lt r
    bv_omega
  have hread : ∀ (m : Memory) (r : Register) (v i : Word), i.toNat ≤ 4 →
      (m.set r v).read (frame - i) = m.read (frame - i) :=
    fun m r v i hi => read_set_of_ne m v (hne r i hi)
  simp only [restoreCaller, restore, frameBelow, hread _ _ _ 2 (by decide),
    hread _ _ _ 3 (by decide), hread _ _ _ 4 (by decide), hsame 1 (by decide) (by decide),
    hsame 2 (by decide) (by decide), hsame 3 (by decide) (by decide),
    hsame 4 (by decide) (by decide)]

section

variable (hlo : 16 ≤ (m.get .arg).toNat) (hframe : (m.get .arg).toNat + 5 ≤ (m.get .lcl).toNat)
  (hsp : (m.get .lcl).toNat < (m.get .sp).toNat)

include hlo hframe hsp

/-- What the pop of a return leaves: the result in place of the first argument. -/
theorem read_popInto_arg {a : Word} (ha : a ≠ 0) :
    (m.popInto (m.get .arg)).read a =
      if a = m.get .arg then m.read (m.get .sp - 1) else m.read a := by
  have htop : m.drop.top = m.read (m.get .sp - 1) := by
    rw [top, drop, get_set_self]
    exact read_set_of_ne _ _ (by simp only [Register.address]; bv_omega)
  have hne : Register.sp.address ≠ a := ha.symm
  rw [popInto, read_write, htop, drop, read_set_of_ne m _ hne]
  simp only [eq_comm]

/-- **A return restores the caller's registers**, puts the result in place of the first argument and
    the stack pointer after it, and changes nothing else. -/
theorem read_leave (a : Word) :
    m.leave.read a =
      if a = 0 then m.get .arg + 1
      else if a = 1 then (m.frameBelow (m.get .lcl)).lcl
      else if a = 2 then (m.frameBelow (m.get .lcl)).arg
      else if a = 3 then (m.frameBelow (m.get .lcl)).this
      else if a = 4 then (m.frameBelow (m.get .lcl)).that
      else if a = m.get .arg then m.read (m.get .sp - 1)
      else m.read a := by
  have hpop : ∀ {a : Word}, a ≠ 0 → (m.popInto (m.get .arg)).read a =
      if a = m.get .arg then m.read (m.get .sp - 1) else m.read a :=
    fun ha => read_popInto_arg hlo hframe hsp ha
  have harg : (m.popInto (m.get .arg)).get .arg = m.get .arg := by
    rw [get, hpop (by decide), if_neg (by simp only [Register.address]; bv_omega)]
    rfl
  -- The registers in the frame lie above the word that takes the result.
  have hsaved : ∀ i : Word, 1 ≤ i.toNat → i.toNat ≤ 4 →
      (m.popInto (m.get .arg)).cutStack.read (m.get .lcl - i) = m.read (m.get .lcl - i) := by
    intro i hpos hi
    rw [cutStack, read_set_of_ne _ _ (by simp only [Register.address]; bv_omega),
      hpop (by bv_omega), if_neg (by bv_omega)]
  rw [leave, restoreCaller_eq (by omega) hsaved, read_set, read_set, read_set, read_set,
    cutStack, read_set, harg]
  -- Only the stack pointer is also changed by the pop.
  by_cases h0 : a = 0
  · rw [h0]
    rfl
  · rw [hpop h0, if_neg (show a ≠ Register.sp.address from h0), if_neg h0]
    rfl

theorem get_sp_leave : m.leave.get .sp = m.get .arg + 1 :=
  read_leave hlo hframe hsp 0

/-- The caller's registers are those of the frame again. -/
theorem callerFrame_leave :
    m.leave.callerFrame (m.frameBelow (m.get .lcl)).back = m.frameBelow (m.get .lcl) := by
  have hread := read_leave hlo hframe hsp
  simp only [callerFrame]
  rw [show m.leave.get .lcl = _ from hread 1, show m.leave.get .arg = _ from hread 2,
    show m.leave.get .this = _ from hread 3, show m.leave.get .that = _ from hread 4]
  rfl

theorem read_arg_leave : m.leave.read (m.get .arg) = m.read (m.get .sp - 1) := by
  rw [read_leave hlo hframe hsp, if_neg (by bv_omega), if_neg (by bv_omega), if_neg (by bv_omega),
    if_neg (by bv_omega), if_neg (by bv_omega), if_pos rfl]

theorem read_leave_of_ne {a : Word} (hregisters : 4 < a.toNat) (ha : a ≠ m.get .arg) :
    m.leave.read a = m.read a := by
  rw [read_leave hlo hframe hsp, if_neg (by bv_omega), if_neg (by bv_omega), if_neg (by bv_omega),
    if_neg (by bv_omega), if_neg (by bv_omega), if_neg ha]

end

end HackVM.Machine.Memory
