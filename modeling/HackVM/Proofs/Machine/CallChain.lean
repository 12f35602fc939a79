import HackVM.Proofs.Machine.Frame

namespace HackVM.Machine.Memory

open Asm

/-!
# The chain of saved frames

Below the local variables of the running function lies the frame of its caller, which says where
the caller's local variables are, and so on.  The frames of the calls that have not returned form a
chain through the stack.

* `savedFrames` — what a walk along the chain meets;
* `Intact m frames` — the chain is there: each frame lies below the local variables of its function,
  and above those of the function that made the call;
* `Intact.write`, `Intact.push`, `Intact.popInto`, `Intact.mapTops` — what keeps the chain;
* `Intact.enter`, `Intact.leave` — calls add a frame to it and returns take it off.
-/

/-- The frames that a walk from an address on meets, each below the local variables that the frame
    before it has saved. -/
def savedFrames (m : Memory) : Nat → Word → List Frame
  | 0, _ => []
  | count + 1, base => m.frameBelow base :: m.savedFrames count (m.frameBelow base).lcl

/-- The frames are saved one below the other, from given local variables and arguments on. The last
    one may have saved anything. -/
def Chain (m : Memory) : Word → Word → List Frame → Prop
  | _, _, [] => True
  | lcl, arg, f :: frames =>
    256 ≤ arg.toNat ∧ arg.toNat + 5 ≤ lcl.toNat ∧ m.frameBelow lcl = f ∧
      (frames = [] ∨ f.lcl.toNat ≤ arg.toNat ∧ m.Chain f.lcl f.arg frames)

theorem Chain.savedFrames {m : Memory} {lcl arg : Word} {frames : List Frame}
    (h : m.Chain lcl arg frames) : m.savedFrames frames.length lcl = frames := by
  induction frames generalizing lcl arg with
  | nil => rfl
  | cons f frames ih =>
    obtain ⟨-, -, hf, hrest⟩ := h
    rw [List.length_cons, Memory.savedFrames, hf]
    rcases hrest with rfl | ⟨-, hrest⟩
    · rfl
    · rw [ih hrest]

/-- The chain is in the words below the local variables, apart from the arguments. -/
theorem Chain.congr {m m' : Memory} {lcl arg : Word} {frames : List Frame}
    (h : m.Chain lcl arg frames)
    (hsame : ∀ a : Word, 256 ≤ a.toNat → a.toNat < lcl.toNat →
      a.toNat < arg.toNat ∨ lcl.toNat ≤ a.toNat + 5 → m'.read a = m.read a) :
    m'.Chain lcl arg frames := by
  induction frames generalizing lcl arg with
  | nil => trivial
  | cons f frames ih =>
    obtain ⟨hlo, hframe, hf, hrest⟩ := h
    -- This frame is next to the local variables; those below it are below the arguments.
    have hcell : ∀ i : Word, 1 ≤ i.toNat → i.toNat ≤ 5 → m'.read (lcl - i) = m.read (lcl - i) :=
      fun i hpos hi => hsame _ (by bv_omega) (by bv_omega) (.inr (by bv_omega))
    refine ⟨hlo, hframe, ?_, ?_⟩
    · rw [← hf]
      simp only [frameBelow, hcell 1 (by decide) (by decide), hcell 2 (by decide) (by decide),
        hcell 3 (by decide) (by decide), hcell 4 (by decide) (by decide),
        hcell 5 (by decide) (by decide)]
    · rcases hrest with hnil | ⟨hbelow, hrest⟩
      · exact .inl hnil
      · refine .inr ⟨hbelow, ih hrest ?_⟩
        exact fun a ha hlt _ => hsame a ha (by omega) (.inl (by omega))

/-! ### What keeps the chain -/

/-- The frames of pending calls are saved on the stack, which has not sunk into the last one. -/
structure Intact (m : Memory) (frames : List Frame) : Prop where
  /-- Some call is pending. -/
  pending : frames ≠ []
  /-- The frames are saved one below the other. -/
  chain : m.Chain (m.get .lcl) (m.get .arg) frames
  /-- The stack has not sunk below the local variables. -/
  above : (m.get .lcl).toNat ≤ (m.get .sp).toNat

/-- A call saves its frame above those that are there, if there are any. -/
theorem intact_enter {m : Memory} {frames : List Frame} {arguments : Word}
    (hframes : frames = [] ∨ m.Chain (m.get .lcl) (m.get .arg) frames ∧
      (m.get .lcl).toNat + arguments.toNat ≤ (m.get .sp).toNat) (back : Word)
    (hargs : 256 + arguments.toNat ≤ (m.get .sp).toNat) (hsp : (m.get .sp).toNat + 5 < 65536) :
    Intact (m.enter back arguments) (m.callerFrame back :: frames) := by
  have hlo : 16 ≤ (m.get .sp).toNat := by omega
  refine ⟨List.cons_ne_nil _ _, ?_, ?_⟩
  · rw [get_lcl_enter hlo hsp, get_arg_enter hlo hsp]
    refine ⟨by bv_omega, by bv_omega, frameBelow_enter hlo hsp _ _, hframes.imp_right ?_⟩
    -- The frames that are there lie below the caller's local variables.
    rintro ⟨hchain, hroom⟩
    refine ⟨?_, hchain.congr fun a ha hlt _ => read_enter hlo hsp _ _ (by omega) (.inl (by omega))⟩
    simp only [callerFrame]
    bv_omega
  · have heq := (get_lcl_enter hlo hsp back arguments).trans
      (get_sp_enter hlo hsp back arguments).symm
    exact Nat.le_of_eq (congrArg BitVec.toNat heq)

/-- An address that holds neither a frame nor one of the registers that the chain starts from. -/
def Harmless (m : Memory) (a : Word) : Prop :=
  3 ≤ a.toNat ∧ a.toNat < 256 ∨
    (m.get .arg).toNat ≤ a.toNat ∧ a.toNat + 5 < (m.get .lcl).toNat ∨
    (m.get .lcl).toNat ≤ a.toNat

namespace Intact

variable {m m' : Memory} {frames : List Frame} (h : Intact m frames)

include h

theorem bounds : 256 ≤ (m.get .arg).toNat ∧ (m.get .arg).toNat + 5 ≤ (m.get .lcl).toNat := by
  obtain ⟨f, frames, rfl⟩ := List.exists_cons_of_ne_nil h.pending
  exact ⟨h.chain.1, h.chain.2.1⟩

theorem savedFrames : m.savedFrames frames.length (m.get .lcl) = frames :=
  h.chain.savedFrames

theorem returnAddress {f : Frame} {rest : List Frame} (hframes : frames = f :: rest) :
    m.returnAddress = f.back := by
  subst hframes
  exact congrArg Frame.back h.chain.2.2.1

/-- What leaves the registers of the chain and its frames alone keeps the chain. -/
theorem of_same (hlcl : m'.get .lcl = m.get .lcl) (harg : m'.get .arg = m.get .arg)
    (habove : (m.get .lcl).toNat ≤ (m'.get .sp).toNat)
    (hsame : ∀ a : Word, 256 ≤ a.toNat → a.toNat < (m.get .lcl).toNat →
      a.toNat < (m.get .arg).toNat ∨ (m.get .lcl).toNat ≤ a.toNat + 5 → m'.read a = m.read a) :
    Intact m' frames where
  pending := h.pending
  chain := by
    rw [hlcl, harg]
    exact h.chain.congr hsame
  above := by rwa [hlcl]

theorem write {a : Word} (ha : Harmless m a) (v : Word) : Intact (m.write a v) frames := by
  have hbounds := h.bounds
  have hregister : ∀ r : Register, r.address.toNat < 3 → (m.write a v).get r = m.get r := by
    intro r hr
    refine get_write_of_ne m v fun heq => ?_
    rw [← heq] at hr
    rcases ha with ha | ha | ha <;> omega
  refine h.of_same (hregister .lcl (by decide)) (hregister .arg (by decide)) ?_ ?_
  · rw [hregister .sp (by decide)]
    exact h.above
  · intro b hlo hb hframe
    refine read_write_of_ne m v fun heq => ?_
    subst heq
    rcases ha with ha | ha | ha <;> omega

theorem set_sp {v : Word} (hv : (m.get .lcl).toNat ≤ v.toNat) : Intact (m.set .sp v) frames := by
  refine h.of_same (get_set_of_ne m v (by decide)) (get_set_of_ne m v (by decide)) ?_ ?_
  · rwa [get_set_self]
  · exact fun a ha _ _ => read_set_of_ne m v (by simp only [Register.address]; bv_omega)

theorem agree (hagree : Agree m' m) : Intact m' frames := by
  refine h.of_same (hagree.get .lcl (by decide)) (hagree.get .arg (by decide)) ?_ ?_
  · rw [hagree.sp]
    exact h.above
  · exact fun a ha _ _ => hagree a (not_scratch_of_le (by omega))

theorem push (hsp : (m.get .sp).toNat + 1 < 65536) (v : Word) : Intact (m.push v) frames := by
  have hbounds := h.bounds
  have habove := h.above
  have hwrite := h.write (a := m.get .sp) (.inr (.inr habove)) v
  have hne : m.get .sp ≠ 0 := by bv_omega
  have hkeep : (m.write (m.get .sp) v).get .sp = m.get .sp := get_write_of_ne m v hne
  have hlcl : (m.write (m.get .sp) v).get .lcl = m.get .lcl :=
    get_write_of_ne m v (by simp only [Register.address]; bv_omega)
  refine hwrite.set_sp ?_
  rw [hkeep, hlcl]
  bv_omega

theorem pushZeros (count : Nat) (hsp : (m.get .sp).toNat + count < 65536) :
    Intact (m.pushZeros count) frames := by
  induction count generalizing m with
  | zero => exact h
  | succ count ih =>
    have hbounds := h.bounds
    have habove := h.above
    refine ih (h.push (by omega) 0) ?_
    rw [get_sp_push (by bv_omega)]
    bv_omega

theorem drop (hsp : (m.get .lcl).toNat < (m.get .sp).toNat) : Intact m.drop frames :=
  h.set_sp (by bv_omega)

theorem popInto (hsp : (m.get .lcl).toNat < (m.get .sp).toNat) {a : Word} (ha : Harmless m a) :
    Intact (m.popInto a) frames := by
  refine (h.drop hsp).write ?_ _
  rwa [Harmless, Memory.drop, get_set_of_ne _ _ (by decide), get_set_of_ne _ _ (by decide)]

theorem mapTop (hsp : (m.get .lcl).toNat < (m.get .sp).toNat) (f : Word → Word) :
    Intact (m.mapTop f) frames :=
  h.write (.inr (.inr (by bv_omega))) _

theorem mapTops (hsp : (m.get .lcl).toNat + 2 ≤ (m.get .sp).toNat) (f : Word → Word → Word) :
    Intact (m.mapTops f) frames := by
  refine (h.drop (by omega)).mapTop ?_ _
  rw [Memory.drop, get_set_self, get_set_of_ne _ _ (by decide)]
  bv_omega

/-- **A call adds its frame to the chain.** -/
theorem enter (back : Word) {arguments : Word}
    (hargs : (m.get .lcl).toNat + arguments.toNat ≤ (m.get .sp).toNat)
    (hsp : (m.get .sp).toNat + 5 < 65536) :
    Intact (m.enter back arguments) (m.callerFrame back :: frames) := by
  have hbounds := h.bounds
  exact intact_enter (.inr ⟨h.chain, hargs⟩) back (by omega) hsp

/-- A return restores the registers of the last frame. -/
theorem callerFrame_leave {f : Frame} {rest : List Frame} (hframes : frames = f :: rest)
    (hsp : (m.get .lcl).toNat < (m.get .sp).toNat) : m.leave.callerFrame f.back = f := by
  have hbounds := h.bounds
  subst hframes
  have hcaller := Memory.callerFrame_leave (by omega) hbounds.2 hsp
  rwa [h.chain.2.2.1] at hcaller

/-- **A return takes its frame off the chain**, unless it is the last one. -/
theorem leave {f : Frame} {rest : List Frame} (hframes : frames = f :: rest) (hrest : rest ≠ [])
    (hsp : (m.get .lcl).toNat < (m.get .sp).toNat) : Intact m.leave rest := by
  have hcaller := h.callerFrame_leave hframes hsp
  have hlcl : m.leave.get .lcl = f.lcl := congrArg Frame.lcl hcaller
  have harg : m.leave.get .arg = f.arg := congrArg Frame.arg hcaller
  subst hframes
  obtain ⟨hlo, hframe, -, hchain⟩ := h.chain
  obtain ⟨hbelow, hchain⟩ := hchain.resolve_left hrest
  have hlo' : 16 ≤ (m.get .arg).toNat := by omega
  refine ⟨hrest, ?_, ?_⟩
  · -- The result is stored at the arguments, above everything that the caller has saved.
    rw [hlcl, harg]
    refine hchain.congr fun a ha hlt _ => read_leave_of_ne hlo' hframe hsp (by omega) ?_
    rintro rfl
    omega
  · rw [hlcl, get_sp_leave hlo' hframe hsp]
    bv_omega

end Intact

end HackVM.Machine.Memory
