import RtBackup.InsnPrefixes
import RtBackup.Lib.Stages

/-!
# The order of the calls

The functions of `insn.c` collect the fields in a fixed order, each of them as far
as it needs. What they answer does not depend on which of them are called, or in
which order.

Results:
1. `getLength_eq` and the others: each function runs the stages up to its own.
2. `completes`: what each stage leaves for the next one.
3. `runCalls_eq`: the calls do what the one that goes furthest does.
-/

namespace RtBackup

open ByteFile InputReader Inat Stages

namespace InsnState

/-- The `got` of the fields, in the order in which they are collected. -/
def fieldGot : Nat → InsnState → Bool
  | 0, insn => insn.prefixes.got
  | 1, insn => insn.opcode.got
  | 2, insn => insn.modrm.got
  | 3, insn => insn.sib.got
  | 4, insn => insn.displacement.got
  | 5, insn => insn.immediate.got
  | 6, insn => insn.length != 0
  | _, _ => false

def fieldBody : Nat → InsnState → Decoding InsnState
  | 0, insn => insn.prefixesBody
  | 1, insn => insn.opcodeBody
  | 2, insn => insn.modrmBody
  | 3, insn => insn.sibBody
  | 4, insn => insn.displacementBody
  | 5, insn => insn.immediateBody
  | 6, insn => insn.lengthBody
  | _, insn => pure insn

theorem collect_eq (n : Nat) (insn : InsnState) :
    collect (fieldGot (n + 1)) (fieldGot n) (ensure fieldGot fieldBody (n + 1))
      (fieldBody (n + 1)) insn = ensure fieldGot fieldBody (n + 2) insn := by
  have hensure : ∀ k, ensure fieldGot fieldBody (k + 1) insn =
      if fieldGot k insn then pure insn
      else ensure fieldGot fieldBody k insn >>= fieldBody k := fun _ => rfl
  by_cases hnow : fieldGot (n + 1) insn = true
  · rw [hensure (n + 1), if_pos hnow, collect, if_pos hnow]
  · rw [hensure (n + 1), if_neg hnow, collect, if_neg hnow]
    by_cases hbefore : fieldGot n insn = true
    · rw [if_pos hbefore, hensure n, if_pos hbefore]
    · rw [if_neg hbefore]

theorem getPrefixes_eq : getPrefixes = ensure fieldGot fieldBody 1 := rfl

theorem getOpcode_eq : getOpcode = ensure fieldGot fieldBody 2 := by
  funext insn
  rw [getOpcode, getPrefixes_eq]
  exact collect_eq 0 insn

theorem getModrm_eq : getModrm = ensure fieldGot fieldBody 3 := by
  funext insn
  rw [getModrm, getOpcode_eq]
  exact collect_eq 1 insn

theorem getSib_eq : getSib = ensure fieldGot fieldBody 4 := by
  funext insn
  rw [getSib, getModrm_eq]
  exact collect_eq 2 insn

theorem getDisplacement_eq : getDisplacement = ensure fieldGot fieldBody 5 := by
  funext insn
  rw [getDisplacement, getSib_eq]
  exact collect_eq 3 insn

theorem getImmediate_eq : getImmediate = ensure fieldGot fieldBody 6 := by
  funext insn
  rw [getImmediate, getDisplacement_eq]
  exact collect_eq 4 insn

theorem getLength_eq : getLength = ensure fieldGot fieldBody 7 := by
  funext insn
  rw [getLength, getImmediate_eq]
  exact collect_eq 5 insn

/-! ## The invariant -/

/-- The field has not been touched. -/
def FieldFresh : Nat → InsnState → Prop
  | 0, insn => insn = insnInit insn.x8664
  | 1, insn => insn.opcode = {}
  | 2, insn => insn.modrm = {}
  | 3, insn => insn.sib = {}
  | 4, insn => insn.displacement = {}
  | 5, insn => insn.immediate = {} ∧ insn.immediate2 = {}
  | 6, insn => insn.length = 0
  | _, _ => True

theorem FieldFresh.not_got {k : Nat} {insn : InsnState} (h : FieldFresh k insn) :
    fieldGot k insn = false := by
  rcases k with _ | _ | _ | _ | _ | _ | _ | k
  · exact congrArg (·.prefixes.got) h
  · exact congrArg (·.got) h
  · exact congrArg (·.got) h
  · exact congrArg (·.got) h
  · exact congrArg (·.got) h
  · exact congrArg (·.got) h.1
  · exact congrArg (· != 0) h
  · rfl

/-- The first `n` fields have been collected. -/
structure Collected (x8664 : Bool) (n : Nat) (insn : InsnState) : Prop where
  x8664_eq : insn.x8664 = x8664
  got : ∀ k < n, k ≤ 5 → fieldGot k insn = true
  fresh : ∀ k ≥ n, FieldFresh k insn
  -- what the attribute of the opcode and that of the whole instruction allow
  found : n = 2 → GroupAllows 10 insn.attr
  resolved : 3 ≤ n → Allows 10 insn.attr
  measured : 7 ≤ n → insn.length = UInt8.ofNat insn.nextByte

theorem collected_init (x8664 : Bool) : Collected x8664 0 (insnInit x8664) where
  x8664_eq := rfl
  got k hk := absurd hk (Nat.not_lt_zero k)
  fresh k _ := by
    rcases k with _ | _ | _ | _ | _ | _ | _ | k
    · rfl
    · rfl
    · rfl
    · rfl
    · rfl
    · exact ⟨rfl, rfl⟩
    · rfl
    · trivial
  found h := absurd h (by decide)
  resolved h := absurd h (by decide)
  measured h := absurd h (by decide)

theorem Collected.at {x8664 : Bool} {n : Nat} {insn : InsnState} (h : Collected x8664 n insn) :
    At fieldGot fieldBody (Collected x8664) n insn where
  holds := h
  done k hk := by
    rcases Nat.lt_or_ge k 6 with hlt | hge
    · exact .inl (h.got k hk (Nat.le_of_lt_succ hlt))
    · refine .inr ?_
      obtain ⟨m, rfl⟩ := Nat.exists_eq_add_of_le' hge
      cases m with
      | zero =>
        change pure { insn with length := UInt8.ofNat insn.nextByte } = pure insn
        rw [← h.measured hk]
      | succ m => rfl
  missing k hk := (h.fresh k hk).not_got

/-- Only field `n` is collected, though the attribute and the sizes may change. -/
structure Collects (n : Nat) (s t : InsnState) : Prop where
  x8664_eq : t.x8664 = s.x8664
  got : n ≤ 5 → fieldGot n t = true
  same_got : ∀ k < n, fieldGot k t = fieldGot k s
  fresh : ∀ k > n, FieldFresh k s → FieldFresh k t

theorem Collected.step {x8664 : Bool} {n : Nat} {s t : InsnState} (h : Collected x8664 n s)
    (hc : Collects n s t) (hfound : n = 1 → GroupAllows 10 t.attr)
    (hresolved : 2 ≤ n → Allows 10 t.attr)
    (hmeasured : 6 ≤ n → t.length = UInt8.ofNat t.nextByte) : Collected x8664 (n + 1) t where
  x8664_eq := hc.x8664_eq.trans h.x8664_eq
  got k hk hk5 := by
    rcases Nat.lt_succ_iff_lt_or_eq.mp hk with hlt | rfl
    · exact (hc.same_got k hlt).trans (h.got k hlt hk5)
    · exact hc.got hk5
  fresh k hk := hc.fresh k hk (h.fresh k (Nat.le_of_succ_le hk))
  found hn := hfound (Nat.succ.inj hn)
  resolved hn := hresolved (Nat.le_of_succ_le_succ hn)
  measured hn := hmeasured (Nat.le_of_succ_le_succ hn)

/-! ## Each stage -/

section

variable {x8664 : Bool} {s t : InsnState} {input r : Bytes}

theorem Collected.prefixes (h : Collected x8664 0 s)
    (hrun : s.prefixesBody input = some (t, r)) : Collected x8664 1 t := by
  have hinit : s = insnInit x8664 := h.x8664_eq ▸ h.fresh 0 (Nat.le_refl 0)
  rw [hinit] at hrun
  obtain ⟨legacy, rex, vex, u, r', -, -, hread⟩ := prefixesBody_read hrun
  refine h.step ?_ (by simp) (by simp) (by simp)
  rw [hread.fields, hinit]
  refine ⟨rfl, fun _ => rfl, by simp, fun k hk hfresh => ?_⟩
  rcases k with _ | _ | _ | _ | _ | _ | _ | k
  · exact absurd hk (Nat.lt_irrefl 0)
  all_goals exact hfresh

theorem Collected.opcode (h : Collected x8664 1 s)
    (hrun : s.opcodeBody input = some (t, r)) : Collected x8664 2 t := by
  rcases opcodeBody_read (h.fresh 1 (Nat.le_refl 1)) input with
    ⟨hnone, -⟩ | ⟨t', op, c, r', rfl, hread⟩
  · rw [hnone] at hrun
    cases hrun
  · obtain ⟨rfl, rfl⟩ := Prod.mk.inj (Option.some.inj ((hread.takes r').symm.trans hrun))
    have hattr := (opcodeAttr_allows s op c).mono (opcodeRoom_le s c)
    refine h.step ⟨?_, fun _ => hread.got, fun k hk => ?_, fun k hk hfresh => ?_⟩ ?_ (by simp)
      (by simp)
    · rw [hread.fields]
    · obtain rfl := Nat.lt_one_iff.mp hk
      rw [hread.fields]
      rfl
    · rw [hread.fields]
      rcases k with _ | _ | _ | _ | _ | _ | _ | k
      · exact absurd hk (by decide)
      · exact absurd hk (Nat.lt_irrefl 1)
      all_goals exact hfresh
    · intro _
      rw [hread.fields]
      exact hattr

theorem attrOf_allows {insn : InsnState} {k : Nat} (h : GroupAllows k insn.attr) (mod : UInt8) :
    Allows k (insn.attrOf mod) := by
  unfold attrOf
  split
  · exact h.resolve mod insn.lastPrefix
  · exact h.1

theorem Collected.modrm (h : Collected x8664 2 s)
    (hrun : s.modrmBody input = some (t, r)) : Collected x8664 3 t := by
  rw [modrmBody_eq (h.fresh 2 (Nat.le_refl 2))] at hrun
  obtain ⟨c, -, -, rfl⟩ := takeWith_eq_some hrun
  refine h.step ⟨rfl, fun _ => rfl, fun k hk => ?_, fun k hk hfresh => ?_⟩ (by simp)
    (fun _ => attrOf_allows (h.found rfl) _) (by simp)
  · rcases k with _ | _ | k
    · rfl
    · rfl
    · omega
  · rcases k with _ | _ | _ | _ | _ | _ | _ | k
    all_goals first | exact hfresh | omega

theorem Collected.sib (h : Collected x8664 3 s)
    (hrun : s.sibBody input = some (t, r)) : Collected x8664 4 t := by
  rw [sibBody_eq (h.fresh 3 (Nat.le_refl 3))] at hrun
  obtain ⟨c, -, -, rfl⟩ := takeWith_eq_some hrun
  refine h.step ⟨rfl, fun _ => rfl, fun k hk => ?_, fun k hk hfresh => ?_⟩ (by simp)
    (fun _ => h.resolved (by decide)) (by simp)
  · rcases k with _ | _ | _ | k
    all_goals first | rfl | omega
  · rcases k with _ | _ | _ | _ | _ | _ | _ | k
    all_goals first | exact hfresh | omega

theorem Collected.displacement (h : Collected x8664 4 s)
    (hrun : s.displacementBody input = some (t, r)) : Collected x8664 5 t := by
  rw [displacementBody_eq (h.fresh 4 (Nat.le_refl 4))] at hrun
  obtain ⟨c, -, -, rfl⟩ := takeWith_eq_some hrun
  refine h.step ⟨rfl, fun _ => rfl, fun k hk => ?_, fun k hk hfresh => ?_⟩ (by simp)
    (fun _ => h.resolved (by decide)) (by simp)
  · rcases k with _ | _ | _ | _ | k
    all_goals first | rfl | omega
  · rcases k with _ | _ | _ | _ | _ | _ | _ | k
    all_goals first | exact hfresh | omega

theorem Collected.immediateBody_eq (h : Collected x8664 5 s) :
    s.immediateBody = takeWith (s.immediateSizes.1 + s.immediateSizes.2) s.withImmediates := by
  obtain ⟨hnew, hnew2⟩ := h.fresh 5 (Nat.le_refl 5)
  exact InsnState.immediateBody_eq hnew hnew2 (h.resolved (by decide)).2

theorem Collected.immediate (h : Collected x8664 5 s)
    (hrun : s.immediateBody input = some (t, r)) : Collected x8664 6 t := by
  rw [h.immediateBody_eq] at hrun
  obtain ⟨c, -, -, rfl⟩ := takeWith_eq_some hrun
  refine h.step ⟨rfl, fun _ => rfl, fun k hk => ?_, fun k hk hfresh => ?_⟩ (by simp)
    (fun _ => h.resolved (by decide)) (by simp)
  · rcases k with _ | _ | _ | _ | _ | k
    all_goals first | rfl | omega
  · rcases k with _ | _ | _ | _ | _ | _ | _ | k
    all_goals first | exact hfresh | omega

theorem Collected.length (h : Collected x8664 6 s)
    (hrun : s.lengthBody input = some (t, r)) : Collected x8664 7 t := by
  cases hrun
  refine h.step ⟨rfl, by simp, fun k hk => ?_, fun k hk hfresh => ?_⟩ (by simp)
    (fun _ => h.resolved (by decide)) (fun _ => rfl)
  · rcases k with _ | _ | _ | _ | _ | _ | k
    all_goals first | rfl | omega
  · rcases k with _ | _ | _ | _ | _ | _ | _ | k
    all_goals first | exact hfresh | omega

end

theorem completes (x8664 : Bool) : Completes fieldGot fieldBody (Collected x8664) := by
  intro n s input t r hs hrun
  have h := hs.holds
  refine Collected.at ?_
  rcases n with _ | _ | _ | _ | _ | _ | _ | n
  · exact h.prefixes hrun
  · exact h.opcode hrun
  · exact h.modrm hrun
  · exact h.sib hrun
  · exact h.displacement hrun
  · exact h.immediate hrun
  · exact h.length hrun
  · cases hrun
    exact {
      x8664_eq := h.x8664_eq
      got := fun k _ hk => h.got k (by omega) hk
      fresh := fun k hk => h.fresh k (Nat.le_of_succ_le hk)
      found := fun hn => absurd hn (by omega)
      resolved := fun _ => h.resolved (by omega)
      measured := fun _ => h.measured (by omega) }

/-- The ModRM byte stays once it has been collected. -/
theorem modrm_kept {x8664 : Bool} {k : Nat} (hk : 3 ≤ k) {s t : InsnState} {input r : Bytes}
    (hs : At fieldGot fieldBody (Collected x8664) k s)
    (hrun : fieldBody k s input = some (t, r)) : t.modrm = s.modrm := by
  have h := hs.holds
  rcases k with _ | _ | _ | _ | _ | _ | _ | k
  · omega
  · omega
  · omega
  · rw [fieldBody, sibBody_eq (h.fresh 3 (Nat.le_refl 3))] at hrun
    obtain ⟨c, -, -, rfl⟩ := takeWith_eq_some hrun
    rfl
  · rw [fieldBody, displacementBody_eq (h.fresh 4 (Nat.le_refl 4))] at hrun
    obtain ⟨c, -, -, rfl⟩ := takeWith_eq_some hrun
    rfl
  · rw [fieldBody, h.immediateBody_eq] at hrun
    obtain ⟨c, -, -, rfl⟩ := takeWith_eq_some hrun
    rfl
  · cases hrun
    rfl
  · cases hrun
    rfl

/-! ## Calls -/

/-- The functions of `insn.c` behind `insn_init`. -/
inductive Call
  | prefixes | opcode | modrm | ripRelative | sib | displacement | immediate | length
  deriving DecidableEq

/-- The answer is that of `insn_rip_relative`. -/
def Call.run : Call → InsnState → Decoding (List Bool × InsnState)
  | .prefixes, insn => do return ([], ← insn.getPrefixes)
  | .opcode, insn => do return ([], ← insn.getOpcode)
  | .modrm, insn => do return ([], ← insn.getModrm)
  | .ripRelative, insn => do
    let (answer, insn) ← insn.getRipRelative
    return ([answer], insn)
  | .sib, insn => do return ([], ← insn.getSib)
  | .displacement, insn => do return ([], ← insn.getDisplacement)
  | .immediate, insn => do return ([], ← insn.getImmediate)
  | .length, insn => do return ([], ← insn.getLength)

def runCalls : List Call → InsnState → Decoding (List Bool × InsnState)
  | [], insn => pure ([], insn)
  | c :: cs, insn => do
    let (answers, insn) ← c.run insn
    let (later, insn) ← runCalls cs insn
    return (answers ++ later, insn)

/-- How many fields the call needs. -/
def Call.depth (x8664 : Bool) : Call → Nat
  | .prefixes => 1
  | .opcode => 2
  | .modrm => 3
  | .ripRelative => if x8664 then 3 else 0
  | .sib => 4
  | .displacement => 5
  | .immediate => 6
  | .length => 7

def depth (x8664 : Bool) (calls : List Call) : Nat := (calls.map (Call.depth x8664)).foldr max 0

/-- The one function that collects the first `n` fields. -/
def getUpTo : Nat → InsnState → Decoding InsnState
  | 0 => pure
  | 1 => getPrefixes
  | 2 => getOpcode
  | 3 => getModrm
  | 4 => getSib
  | 5 => getDisplacement
  | 6 => getImmediate
  | _ => getLength

theorem depth_le (x8664 : Bool) (calls : List Call) : depth x8664 calls ≤ 7 := by
  induction calls with
  | nil => exact Nat.zero_le 7
  | cons c cs ih =>
    refine Nat.max_le.mpr ⟨?_, ih⟩
    cases c <;> cases x8664 <;> decide

theorem getUpTo_eq {n : Nat} (h : n ≤ 7) : getUpTo n = ensure fieldGot fieldBody n := by
  rcases n with _ | _ | _ | _ | _ | _ | _ | _ | n
  · rfl
  · exact getPrefixes_eq
  · exact getOpcode_eq
  · exact getModrm_eq
  · exact getSib_eq
  · exact getDisplacement_eq
  · exact getImmediate_eq
  · exact getLength_eq
  · omega

/-- The answers of a call that leads to `insn`. -/
def Call.answers (x8664 : Bool) (insn : InsnState) (c : Call) : List Bool :=
  if c = .ripRelative then [x8664 && insn.ripRelative] else []

theorem Call.run_eq {x8664 : Bool} {insn : InsnState} (hx : insn.x8664 = x8664) (c : Call) :
    c.run insn = ensure fieldGot fieldBody (c.depth x8664) insn >>= fun t =>
      pure (c.answers x8664 t, t) := by
  cases c with
  | prefixes => rfl
  | opcode => rw [run, getOpcode_eq]; rfl
  | modrm => rw [run, getModrm_eq]; rfl
  | ripRelative =>
    have hanswer : ∀ t, Call.answers x8664 t .ripRelative = [x8664 && t.ripRelative] :=
      fun _ => if_pos rfl
    simp only [hanswer, run]
    cases x8664 with
    | false =>
      rw [getRipRelative, hx]
      rfl
    | true =>
      have hgot : (if insn.modrm.got then pure insn else insn.getModrm) =
          ensure fieldGot fieldBody 3 insn := by
        rw [getModrm_eq]
        by_cases hnow : insn.modrm.got = true
        · rw [if_pos hnow]
          exact (if_pos hnow).symm
        · rw [if_neg hnow]
      rw [getRipRelative, hx, depth]
      simp only [Bool.not_true, Bool.false_eq_true, if_false, if_true, ← hgot, Bool.true_and]
      split <;> simp only [bind_assoc, pure_bind]
  | sib => rw [run, getSib_eq]; rfl
  | displacement => rw [run, getDisplacement_eq]; rfl
  | immediate => rw [run, getImmediate_eq]; rfl
  | length => rw [run, getLength_eq]; rfl

theorem answers_append {x8664 : Bool} {c : Call} {cs : List Call} {s t : InsnState}
    (h : c = .ripRelative → x8664 = true → t.modrm = s.modrm) :
    Call.answers x8664 s c ++ List.replicate (cs.count .ripRelative) (x8664 && t.ripRelative) =
      List.replicate ((c :: cs).count .ripRelative) (x8664 && t.ripRelative) := by
  unfold Call.answers
  by_cases hc : c = .ripRelative
  · have hsame : (x8664 && s.ripRelative) = (x8664 && t.ripRelative) := by
      cases hx : x8664 with
      | false => rfl
      | true => rw [ripRelative, ripRelative, h hc hx]
    rw [if_pos hc, hsame, hc, List.count_cons_self, List.replicate_succ, List.singleton_append]
  · rw [if_neg hc, List.count_cons_of_ne hc, List.nil_append]

theorem runCalls_at {x8664 : Bool} {n : Nat} {s : InsnState}
    (hs : At fieldGot fieldBody (Collected x8664) n s) (calls : List Call) :
    runCalls calls s = ensure fieldGot fieldBody (depth x8664 calls) s >>= fun t =>
      pure (List.replicate (calls.count .ripRelative) (x8664 && t.ripRelative), t) := by
  induction calls generalizing n s with
  | nil => rfl
  | cons c cs ih =>
    have hdepth : depth x8664 (c :: cs) = max (c.depth x8664) (depth x8664 cs) := rfl
    rw [runCalls, c.run_eq hs.holds.x8664_eq, hdepth, ← ensure_ensure (completes x8664) hs]
    simp only [bind_assoc, pure_bind]
    refine bind_congr_of_result fun _ t _ ht => ?_
    have hat := hs.ensure (completes x8664) ht
    rw [ih hat]
    simp only [bind_assoc, pure_bind]
    refine bind_congr_of_result fun _ u _ hu => ?_
    rw [answers_append]
    rintro rfl rfl
    -- the ModRM byte was there for the answer
    have hthree : 3 ≤ max n (Call.depth true .ripRelative) := Nat.le_max_right n 3
    exact hat.ensure_keeps (completes true)
      (fun m hm _ _ _ _ => modrm_kept (Nat.le_trans hthree hm)) hu

/-- The calls have the effect of the one that goes furthest, and every answer of
`insn_rip_relative` is the one that the collected fields give. -/
theorem runCalls_eq (x8664 : Bool) (calls : List Call) :
    runCalls calls (insnInit x8664) = do
      let insn ← getUpTo (depth x8664 calls) (insnInit x8664)
      return (List.replicate (calls.count .ripRelative) (x8664 && insn.ripRelative), insn) := by
  rw [getUpTo_eq (depth_le x8664 calls)]
  exact runCalls_at (collected_init x8664).at calls

end InsnState

end RtBackup
