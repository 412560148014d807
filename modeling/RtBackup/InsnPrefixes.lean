import RtBackup.InsnOpcode
import Mathlib.Data.List.Basic

/-!
# Prefixes

Results:
1. `scanPrefixes_scanned`: what the loop over the legacy prefixes passes and stores.
2. `prefixesBody_read`: the prefixes are what the function takes, after a look at
   what follows.
3. `prefixesBody_isSome`: it fails for lack of bytes only.
-/

namespace RtBackup

open ByteFile InputReader Inat

def Legacy (b : UInt8) : Prop := isLegacyPrefix (getOpcodeAttribute b) = true

instance legacyDecidable (b : UInt8) : Decidable (Legacy b) :=
  inferInstanceAs (Decidable (_ = _))

namespace InsnState

open FieldState

theorem eraseDups_concat {c : Bytes} {b : UInt8} :
    (c ++ [b]).eraseDups = if b ∈ c then c.eraseDups else c.eraseDups ++ [b] := by
  rw [List.eraseDups_append]
  split
  · next hmem =>
    have hnil : [b].removeAll c = [] := by simp [List.removeAll, hmem]
    rw [hnil, List.eraseDups_nil, List.append_nil]
  · next hmem =>
    have hone : [b].removeAll c = [b] := by simp [List.removeAll, hmem]
    rw [hone]
    rfl

/-- The sizes with the prefixes `c`. -/
def prefixedOpndBytes (c : Bytes) : UInt8 := if 0x66 ∈ c then 2 else 4

def prefixedAddrBytes (x8664 : Bool) (c : Bytes) : UInt8 :=
  if x8664 then if 0x67 ∈ c then 4 else 8
  else if 0x67 ∈ c then 2 else 4

/-- The loop has passed the prefixes `c`. -/
structure Scanned (x8664 : Bool) (c : Bytes) (nb : Nat) (lb : UInt8) (s : InsnState) : Prop where
  nb_eq : nb = c.eraseDups.length
  nb_le : nb ≤ 4
  bytes : s.prefixes.bytes.toList = c.eraseDups ++ List.replicate (4 - nb) 0
  lb_eq : lb = c.getLast?.getD 0
  legacy : ∀ b ∈ c, Legacy b
  fields : s = { insnInit x8664 with
    prefixes := ⟨s.prefixes.bytes, false, UInt8.ofNat c.length⟩
    opndBytes := prefixedOpndBytes c
    addrBytes := prefixedAddrBytes x8664 c
    nextByte := c.length }

theorem scanned_nil (x8664 : Bool) : Scanned x8664 [] 0 0 (insnInit x8664) where
  nb_eq := rfl
  nb_le := by decide
  bytes := rfl
  lb_eq := rfl
  legacy := by simp
  fields := by cases x8664 <;> rfl

theorem Scanned.mem_iff {x8664 : Bool} {c : Bytes} {nb : Nat} {lb : UInt8} {s : InsnState}
    (h : Scanned x8664 c nb lb s) {b : UInt8} :
    b ∈ s.prefixes.bytes.toList.take nb ↔ b ∈ c := by
  rw [h.bytes, h.nb_eq, List.take_left, List.mem_eraseDups]

theorem switchSize_eq (s : InsnState) (b : UInt8) :
    s.switchSize (getOpcodeAttribute b) = { s with
      addrBytes := if b = 0x67 then s.addrBytes ^^^ (if s.x8664 then 12 else 6) else s.addrBytes
      opndBytes := if b = 0x66 then s.opndBytes ^^^ 6 else s.opndBytes } := by
  unfold switchSize
  simp only [isAddressSizePrefix_iff, isOperandSizePrefix_iff]
  by_cases haddr : b = 0x67
  · have hopnd : b ≠ 0x66 := by
      rw [haddr]
      decide
    rw [if_pos haddr, if_pos haddr, if_neg hopnd]
  · rw [if_neg haddr, if_neg haddr]
    split <;> rfl

theorem mem_concat_of_ne {c : Bytes} {b d : UInt8} (h : b ≠ d) : d ∈ c ++ [b] ↔ d ∈ c := by
  rw [List.mem_append, List.mem_singleton, or_iff_left_iff_imp]
  intro heq
  exact absurd heq.symm h

theorem prefixedOpndBytes_concat {c : Bytes} {b : UInt8} (hmem : b ∉ c) :
    (if b = 0x66 then prefixedOpndBytes c ^^^ 6 else prefixedOpndBytes c) =
      prefixedOpndBytes (c ++ [b]) := by
  unfold prefixedOpndBytes
  by_cases hb : b = 0x66
  · subst hb
    rw [if_pos rfl, if_neg hmem, if_pos (by simp)]
    decide
  · simp only [if_neg hb, mem_concat_of_ne hb]

theorem prefixedAddrBytes_concat {c : Bytes} {b : UInt8} (x8664 : Bool) (hmem : b ∉ c) :
    (if b = 0x67 then prefixedAddrBytes x8664 c ^^^ (if x8664 then 12 else 6)
      else prefixedAddrBytes x8664 c) = prefixedAddrBytes x8664 (c ++ [b]) := by
  unfold prefixedAddrBytes
  by_cases hb : b = 0x67
  · subst hb
    have hnow : (0x67 : UInt8) ∈ c ++ [0x67] := by simp
    simp only [if_neg hmem, if_pos hnow, if_true]
    cases x8664 <;> decide
  · simp only [if_neg hb, mem_concat_of_ne hb]

theorem set_replicate {l : Bytes} {n : Nat} (b : UInt8) (hlt : l.length < n) :
    (l ++ List.replicate (n - l.length) 0).set l.length b =
      l ++ [b] ++ List.replicate (n - (l.length + 1)) 0 := by
  obtain ⟨k, rfl⟩ := Nat.exists_eq_add_of_lt hlt
  have hk : l.length + k + 1 - l.length = k + 1 := by omega
  have hk' : l.length + k + 1 - (l.length + 1) = k := by omega
  rw [hk, hk', List.set_append_right _ _ (Nat.le_refl _), Nat.sub_self, List.replicate_succ,
    List.set_cons_zero, List.append_assoc, List.singleton_append]

section

variable {x8664 : Bool} {c : Bytes} {nb : Nat} {lb b : UInt8} {s : InsnState}
  (h : Scanned x8664 c nb lb s)

include h

theorem Scanned.prefixes_eq : s.prefixes = ⟨s.prefixes.bytes, false, UInt8.ofNat c.length⟩ :=
  congrArg InsnState.prefixes h.fields

/-- A prefix that is there already counts, and nothing else. -/
theorem Scanned.again (hb : Legacy b) (hmem : b ∈ c) :
    Scanned x8664 (c ++ [b]) nb b s.passPrefix where
  nb_eq := by rw [eraseDups_concat, if_pos hmem, h.nb_eq]
  nb_le := h.nb_le
  bytes := by
    rw [eraseDups_concat, if_pos hmem]
    exact h.bytes
  lb_eq := by rw [List.getLast?_concat, Option.getD_some]
  legacy d hd := by
    rcases List.mem_append.mp hd with hd | hd
    · exact h.legacy d hd
    · rwa [List.mem_singleton.mp hd]
  fields := by
    have hsame : ∀ d, d ∈ c ++ [b] ↔ d ∈ c := fun d => by
      rw [List.mem_append, List.mem_singleton, or_iff_left_iff_imp]
      rintro rfl
      exact hmem
    unfold passPrefix prefixedOpndBytes prefixedAddrBytes
    simp only [hsame]
    conv_lhs => rw [h.fields]
    rw [List.length_append, List.length_singleton, UInt8.ofNat_add]
    rfl

theorem Scanned.fresh (hb : Legacy b) (hmem : b ∉ c) (hnb : nb ≠ 4) :
    ∃ prefixes, s.prefixes.store nb b = some prefixes ∧
      Scanned x8664 (c ++ [b]) (nb + 1) b
        ({ s with prefixes }.switchSize (getOpcodeAttribute b)).passPrefix := by
  have hlt : nb < 4 := Nat.lt_of_le_of_ne h.nb_le hnb
  refine ⟨_, store_of_lt hlt b, ?_, hlt, ?_, ?_, ?_, ?_⟩
  · rw [eraseDups_concat, if_neg hmem, List.length_append, ← h.nb_eq]
    rfl
  · rw [switchSize_eq]
    change (s.prefixes.bytes.set nb b hlt).toList = _
    have hset := set_replicate (l := c.eraseDups) (n := 4) b (h.nb_eq ▸ hlt)
    rw [← h.nb_eq] at hset
    rw [Vector.toList_set, h.bytes, eraseDups_concat, if_neg hmem]
    exact hset
  · rw [List.getLast?_concat, Option.getD_some]
  · intro d hd
    rcases List.mem_append.mp hd with hd | hd
    · exact h.legacy d hd
    · rwa [List.mem_singleton.mp hd]
  · rw [switchSize_eq, ← prefixedOpndBytes_concat hmem, ← prefixedAddrBytes_concat x8664 hmem,
      List.length_append, List.length_singleton, UInt8.ofNat_add]
    conv_lhs => rw [h.fields]
    rfl

/-- One round of the loop. -/
theorem Scanned.round (b : UInt8) :
    ((Legacy b → nb = 4 ∧ b ∉ c) ∧
      ∀ rest, scanPrefixes (b :: rest) nb lb s = some ((nb, lb, s), b :: rest)) ∨
    Legacy b ∧ ∃ nb' s', Scanned x8664 (c ++ [b]) nb' b s' ∧
      ∀ rest, scanPrefixes (b :: rest) nb lb s = scanPrefixes rest nb' b s' := by
  by_cases hb : Legacy b
  · have htest : (!isLegacyPrefix (getOpcodeAttribute b)) = false := by
      rw [Bool.not_eq_false']
      exact hb
    by_cases hmem : b ∈ c
    · refine .inr ⟨hb, nb, s.passPrefix, h.again hb hmem, fun rest => ?_⟩
      rw [scanPrefixes, htest, if_pos (h.mem_iff.mpr hmem)]
      rfl
    · have hnot : b ∉ s.prefixes.bytes.toList.take nb := mt h.mem_iff.mp hmem
      by_cases hnb : nb = 4
      · refine .inl ⟨fun _ => ⟨hnb, hmem⟩, fun rest => ?_⟩
        rw [scanPrefixes, htest, if_neg hnot, if_pos hnb]
        rfl
      · obtain ⟨prefixes, hstore, hnext⟩ := h.fresh hb hmem hnb
        refine .inr ⟨hb, nb + 1, _, hnext, fun rest => ?_⟩
        rw [scanPrefixes, htest, if_neg hnot, if_neg hnb, hstore]
        rfl
  · have htest : (!isLegacyPrefix (getOpcodeAttribute b)) = true := by
      rw [Bool.not_eq_true', Bool.eq_false_iff]
      exact hb
    exact .inl ⟨fun hlegacy => absurd hlegacy hb, fun rest => by
      rw [scanPrefixes, htest]
      rfl⟩

omit h in
/-- The loop passes `d` and stops at `b`, whatever follows. -/
theorem scanPrefixes_scanned {input : Bytes} {nb' : Nat} {lb' : UInt8} {t : InsnState} {r : Bytes}
    (h : Scanned x8664 c nb lb s)
    (hrun : scanPrefixes input nb lb s = some ((nb', lb', t), r)) :
    ∃ d b rest, input = d ++ b :: rest ∧ r = b :: rest ∧ Scanned x8664 (c ++ d) nb' lb' t ∧
      (Legacy b → nb' = 4 ∧ b ∉ c ++ d) ∧
      ∀ rest, scanPrefixes (d ++ b :: rest) nb lb s = some ((nb', lb', t), b :: rest) := by
  induction input generalizing c nb lb s with
  | nil => cases hrun
  | cons b rest ih =>
    rcases h.round b with ⟨hstop, hscan⟩ | ⟨-, nb₁, s₁, hs₁, hscan⟩
    · rw [hscan] at hrun
      cases hrun
      exact ⟨[], b, rest, rfl, rfl, by rwa [List.append_nil], by rwa [List.append_nil], hscan⟩
    · rw [hscan] at hrun
      obtain ⟨d, b', rest', rfl, rfl, ht, hstop, hlook⟩ := ih hs₁ hrun
      refine ⟨b :: d, b', rest', rfl, rfl, ?_, ?_, fun rest => ?_⟩
      · rwa [List.append_assoc] at ht
      · rwa [List.append_assoc] at hstop
      · rw [List.cons_append, hscan, hlook]

omit h in
/-- A byte that is no prefix stops the loop, unless it has stopped before. -/
theorem scanPrefixes_isSome (h : Scanned x8664 c nb lb s) (input : Bytes) {z : UInt8}
    (hz : ¬Legacy z) (pad : Bytes) :
    ∃ p r, scanPrefixes (input ++ z :: pad) nb lb s = some (p, r) ∧ pad.length < r.length := by
  induction input generalizing c nb lb s with
  | nil =>
    rcases h.round z with ⟨-, hscan⟩ | ⟨hlegacy, -⟩
    · exact ⟨_, _, hscan pad, Nat.lt_succ_self _⟩
    · exact absurd hlegacy hz
  | cons b rest ih =>
    rcases h.round b with ⟨-, hscan⟩ | ⟨-, nb₁, s₁, hs₁, hscan⟩
    · refine ⟨_, _, hscan _, ?_⟩
      change pad.length < (b :: (rest ++ z :: pad)).length
      rw [List.length_cons, List.length_append, List.length_cons]
      omega
    · obtain ⟨p, r, hrun, hlen⟩ := ih hs₁
      exact ⟨p, r, (hscan _).trans hrun, hlen⟩

end

/-! ## The last prefix -/

theorem exists_bytes (bytes : Vector UInt8 4) : ∃ x₀ x₁ x₂ x₃, bytes = #v[x₀, x₁, x₂, x₃] := by
  refine ⟨bytes[0], bytes[1], bytes[2], bytes[3], Vector.ext fun i hi => ?_⟩
  obtain _ | _ | _ | _ | i := i
  · rfl
  · rfl
  · rfl
  · rfl
  · omega

/-- The last prefix moves to the end, and no prefix is lost. -/
theorem setLastPrefix_bytes {nb : Nat} {lb : UInt8} {prefixes : FieldState}
    (hzero : lb = 0 → prefixes.lastByte = 0) (hmem : lb ≠ 0 → lb ∈ prefixes.bytes.toList)
    (hfull : prefixes.lastByte ≠ 0 → nb = 4) :
    (setLastPrefix nb lb prefixes).lastByte = lb ∧
      ∀ b ≠ 0, b ∈ (setLastPrefix nb lb prefixes).bytes.toList ↔ b ∈ prefixes.bytes.toList := by
  obtain ⟨bytes, got, nbytes⟩ := prefixes
  obtain ⟨x₀, x₁, x₂, x₃, rfl⟩ := exists_bytes bytes
  have hlist : (#v[x₀, x₁, x₂, x₃]).toList = [x₀, x₁, x₂, x₃] := rfl
  have hlast : (⟨#v[x₀, x₁, x₂, x₃], got, nbytes⟩ : FieldState).lastByte = x₃ := rfl
  simp only [hlist, hlast] at hzero hmem hfull ⊢
  unfold setLastPrefix
  simp only [hlast]
  split_ifs with hlb hx
  · -- the last prefix is among the first three, where `x₃` goes
    obtain rfl := hfull hx
    let swap := fun (i : Nat) x => if i < 4 ∧ x = lb then x₃ else x
    refine ⟨rfl, fun b hb => ?_⟩
    change b ∈ [swap 0 x₀, swap 1 x₁, swap 2 x₂, lb] ↔ b ∈ [x₀, x₁, x₂, x₃]
    have hmem := hmem hlb.1
    simp only [swap, List.mem_cons, List.not_mem_nil, or_false] at hmem ⊢
    grind
  · have hzero : x₃ = 0 := not_not.mp hx
    refine ⟨rfl, fun b hb => ?_⟩
    change b ∈ [x₀, x₁, x₂, lb] ↔ b ∈ [x₀, x₁, x₂, x₃]
    have hmem := hmem hlb.1
    simp only [List.mem_cons, List.not_mem_nil, or_false] at hmem ⊢
    grind
  · refine ⟨?_, fun _ _ => Iff.rfl⟩
    change x₃ = lb
    grind

/-! ## REX and VEX -/

def withRex (insn : InsnState) (c : Bytes) : InsnState :=
  { insn with
    rexPrefix := plain c
    opndBytes := if rexW (c.headD 0) ≠ 0 then 8 else insn.opndBytes
    nextByte := insn.nextByte + c.length }

theorem decodeRex_cons {s : InsnState} (hnew : s.rexPrefix = {}) (b : UInt8) (rest : Bytes) :
    s.decodeRex (b :: rest) =
      if s.x8664 = true ∧ isRexPrefix (getOpcodeAttribute b) = true then some (s.withRex [b], rest)
      else some (s.withRex [], b :: rest) := by
  have hnone : ({ s with rexPrefix := { s.rexPrefix with got := true } } : InsnState) =
      s.withRex [] := by
    rw [hnew, plain_nil]
    rfl
  unfold decodeRex
  by_cases hx : s.x8664 = true
  · simp only [if_pos hx, bind_apply, peek, List.getElem?_cons_zero, Option.map_some,
      Option.bind_some]
    by_cases hrex : isRexPrefix (getOpcodeAttribute b) = true
    · have hboth : s.x8664 = true ∧ isRexPrefix (getOpcodeAttribute b) = true := ⟨hx, hrex⟩
      rw [if_pos hboth, withRex, ← assign_byte, ← hnew, if_pos hrex]
      rfl
    · have hnot : ¬(s.x8664 = true ∧ isRexPrefix (getOpcodeAttribute b) = true) := fun h => hrex h.2
      rw [if_neg hnot]
      simp only [if_neg hrex, pure_bind, pure_apply, hnone]
  · have hnot : ¬(s.x8664 = true ∧ isRexPrefix (getOpcodeAttribute b) = true) := fun h => hx h.1
    rw [if_neg hnot]
    simp only [if_neg hx, pure_bind, pure_apply, hnone]

def withVex (insn : InsnState) (c : Bytes) : InsnState :=
  { insn with
    vexPrefix := plain c
    opndBytes := if insn.x8664 && vexW (c.getD 2 0) != 0 then 8 else insn.opndBytes
    nextByte := insn.nextByte + c.length }

theorem assignVex2_eq (b b2 : UInt8) :
    ({ ({} : FieldState).assignVex2 b b2 with got := true } : FieldState) = plain [b, b2] := by
  have hbytes : (({} : FieldState).assignVex2 b b2).bytes = (plain [b, b2]).bytes :=
    Vector.toList_inj.mp (by rw [@toList_plain [b, b2] (by decide : 2 ≤ 4)]; rfl)
  simp only [hbytes]
  rfl

theorem assignVex3_eq (b b2 b3 : UInt8) :
    ({ ({} : FieldState).assignVex3 b b2 b3 with got := true } : FieldState) =
      plain [b, b2, b3] := by
  have hbytes : (({} : FieldState).assignVex3 b b2 b3).bytes = (plain [b, b2, b3]).bytes :=
    Vector.toList_inj.mp (by rw [@toList_plain [b, b2, b3] (by decide : 3 ≤ 4)]; rfl)
  simp only [hbytes]
  rfl

theorem decodeVex_none {s : InsnState} (hnew : s.vexPrefix = {}) {b : UInt8} {rest : Bytes}
    (h : isVexPrefix (getOpcodeAttribute b) = true →
      s.x8664 = false ∧ ∃ b2 rest', rest = b2 :: rest' ∧ modrmMod b2 ≠ 3) :
    s.decodeVex (b :: rest) = some (s.withVex [], b :: rest) := by
  have hnone : ({ s with vexPrefix := { s.vexPrefix with got := true } } : InsnState) =
      s.withVex [] := by
    have hw : (s.x8664 && vexW 0 != 0) = false := Bool.and_false _
    rw [hnew, plain_nil, withVex, List.getD_nil, hw]
    rfl
  unfold decodeVex
  simp only [bind_apply, peek, List.getElem?_cons_zero, Option.map_some, Option.bind_some]
  by_cases hvex : isVexPrefix (getOpcodeAttribute b) = true
  · obtain ⟨hx, b2, rest', rfl, hmod⟩ := h hvex
    have hpeek : peek 1 (b :: b2 :: rest') = some (b2, b :: b2 :: rest') := rfl
    have hskip : (!s.x8664 && modrmMod b2 != 3) = true := by
      rw [hx, bne_iff_ne.mpr hmod]
      rfl
    simp only [if_pos hvex, bind_apply, hpeek, Option.bind_some, if_pos hskip, pure_bind,
      pure_apply, hnone]
  · simp only [if_neg hvex, pure_bind, pure_apply, hnone]

/-- A VEX prefix of two or three bytes. -/
theorem decodeVex_some {s : InsnState} (hnew : s.vexPrefix = {}) {b b2 : UInt8} {rest : Bytes}
    (hvex : isVexPrefix (getOpcodeAttribute b) = true)
    (h : s.x8664 = true ∨ modrmMod b2 = 3) :
    s.decodeVex (b :: b2 :: rest) =
      if isVex3Prefix (getOpcodeAttribute b) = true then
        match rest with
        | [] => none
        | b3 :: rest => some (s.withVex [b, b2, b3], rest)
      else some (s.withVex [b, b2], rest) := by
  have hskip : ¬(!s.x8664 && modrmMod b2 != 3) = true := by
    rcases h with hx | hmod
    · simp [hx]
    · simp [hmod]
  have hpeek0 : peek 0 (b :: b2 :: rest) = some (b, b :: b2 :: rest) := rfl
  have hpeek1 : peek 1 (b :: b2 :: rest) = some (b2, b :: b2 :: rest) := rfl
  unfold decodeVex
  simp only [bind_apply, hpeek0, hpeek1, Option.bind_some, if_pos hvex, if_neg hskip]
  by_cases hvex3 : isVex3Prefix (getOpcodeAttribute b) = true
  · rw [if_pos hvex3, if_pos hvex3]
    cases rest with
    | nil => rfl
    | cons b3 rest =>
      have hpeek2 : peek 2 (b :: b2 :: b3 :: rest) = some (b3, b :: b2 :: b3 :: rest) := rfl
      simp only [bind_apply, hpeek2, Option.bind_some, withVex, hnew]
      rw [← assignVex3_eq]
      rfl
  · rw [if_neg hvex3, if_neg hvex3]
    have hw : (s.x8664 && vexW 0 != 0) = false := Bool.and_false _
    have hthird : [b, b2].getD 2 0 = 0 := rfl
    simp only [withVex, hnew, hthird, hw]
    rw [← assignVex2_eq]
    rfl

/-- What was looked at behind the VEX prefix `c`. -/
def LookedAt (c u : Bytes) : Prop :=
  c ≠ [] ∧ u = [] ∨ c = [] ∧ ∃ b, u = [b] ∨
    isVexPrefix (getOpcodeAttribute b) = true ∧ ∃ b2, u = [b, b2]

/-- What the decoding of a VEX prefix does when it takes `c`. -/
structure VexRead (s : InsnState) (c u : Bytes) : Prop where
  looks : Looks s.decodeVex c u (s.withVex c)
  looked : LookedAt c u
  length_le : c.length ≤ 3
  first : ∀ b rest, c = b :: rest → isVexPrefix (getOpcodeAttribute b) = true

theorem decodeVex_read {s : InsnState} (hnew : s.vexPrefix = {}) (input : Bytes) :
    s.decodeVex input = none ∧ input.length < 3 ∨
      ∃ c u r, input = c ++ (u ++ r) ∧ VexRead s c u := by
  cases input with
  | nil => exact .inl ⟨rfl, by decide⟩
  | cons b rest =>
    by_cases hvex : isVexPrefix (getOpcodeAttribute b) = true
    · cases rest with
      | nil =>
        refine .inl ⟨?_, by simp⟩
        have hpeek0 : peek 0 [b] = some (b, [b]) := rfl
        have hpeek1 : peek 1 [b] = none := rfl
        unfold decodeVex
        simp only [bind_apply, hpeek0, Option.bind_some, if_pos hvex, hpeek1, Option.bind_none]
      | cons b2 rest =>
        by_cases hles : s.x8664 = false ∧ modrmMod b2 ≠ 3
        · refine .inr ⟨[], [b, b2], rest, rfl, ⟨fun r => ?_, .inr ⟨rfl, b, .inr ⟨hvex, b2, rfl⟩⟩,
            by simp, fun _ _ h => by cases h⟩⟩
          exact decodeVex_none hnew fun _ => ⟨hles.1, b2, r, rfl, hles.2⟩
        · have hprefix : s.x8664 = true ∨ modrmMod b2 = 3 := by
            rw [not_and_or, Bool.not_eq_false, not_not] at hles
            exact hles
          have hfirst : ∀ c b' rest', b :: c = b' :: rest' →
              isVexPrefix (getOpcodeAttribute b') = true := by
            rintro _ _ _ heq
            cases heq
            exact hvex
          by_cases hvex3 : isVex3Prefix (getOpcodeAttribute b) = true
          · cases rest with
            | nil =>
              refine .inl ⟨?_, by simp⟩
              rw [decodeVex_some hnew hvex hprefix, if_pos hvex3]
            | cons b3 rest =>
              refine .inr ⟨[b, b2, b3], [], rest, rfl, ⟨fun r => ?_, .inl ⟨by simp, rfl⟩,
                by simp, hfirst _⟩⟩
              exact (decodeVex_some hnew hvex hprefix).trans (if_pos hvex3)
          · refine .inr ⟨[b, b2], [], rest, rfl, ⟨fun r => ?_, .inl ⟨by simp, rfl⟩, by simp,
              hfirst _⟩⟩
            exact (decodeVex_some hnew hvex hprefix).trans (if_neg hvex3)
    · refine .inr ⟨[], [b], rest, rfl, ⟨fun r => ?_, .inr ⟨rfl, b, .inl rfl⟩, by simp,
        fun _ _ h => by cases h⟩⟩
      exact decodeVex_none hnew fun h => absurd h hvex

/-! ## All prefixes -/

/-- The operand size with all prefixes; REX.W and VEX.W override it. -/
def sizedOpndBytes (x8664 : Bool) (legacy rex vex : Bytes) : UInt8 :=
  if x8664 && vexW (vex.getD 2 0) != 0 then 8
  else if rexW (rex.headD 0) ≠ 0 then 8
  else prefixedOpndBytes legacy

/-- What `insn_get_prefixes` does when it takes the legacy prefixes, a REX prefix and
a VEX prefix, the latter two of which may be missing. -/
structure PrefixesRead (x8664 : Bool) (legacy rex vex u : Bytes) (t : InsnState) : Prop where
  looks : Looks (insnInit x8664).prefixesBody (legacy ++ (rex ++ vex)) u t
  fields : t = { insnInit x8664 with
    prefixes := ⟨t.prefixes.bytes, true, UInt8.ofNat legacy.length⟩
    rexPrefix := plain rex
    vexPrefix := plain vex
    opndBytes := sizedOpndBytes x8664 legacy rex vex
    addrBytes := prefixedAddrBytes x8664 legacy
    nextByte := legacy.length + rex.length + vex.length }
  all_legacy : ∀ b ∈ legacy, Legacy b
  distinct : legacy.eraseDups.length ≤ 4
  last : t.lastPrefix = legacy.getLast?.getD 0
  mem_iff : ∀ b ≠ 0, b ∈ t.prefixes.bytes.toList ↔ b ∈ legacy
  stop : ∃ b rest, rex ++ (vex ++ u) = b :: rest ∧
    (Legacy b → legacy.eraseDups.length = 4 ∧ b ∉ legacy)
  rex_cases : rex = [] ∨
    x8664 = true ∧ ∃ b, rex = [b] ∧ isRexPrefix (getOpcodeAttribute b) = true
  looked : LookedAt vex u
  vex_length : vex.length ≤ 3
  vex_first : ∀ b rest, vex = b :: rest → isVexPrefix (getOpcodeAttribute b) = true

theorem Scanned.last {x8664 : Bool} {c : Bytes} {nb : Nat} {lb : UInt8} {s : InsnState}
    (h : Scanned x8664 c nb lb s) :
    (setLastPrefix nb lb s.prefixes).lastByte = c.getLast?.getD 0 ∧
      ∀ b ≠ 0, b ∈ (setLastPrefix nb lb s.prefixes).bytes.toList ↔ b ∈ c := by
  have hmem : ∀ b ≠ 0, b ∈ s.prefixes.bytes.toList ↔ b ∈ c := fun b hb => by
    rw [h.bytes, List.mem_append, List.mem_eraseDups, List.mem_replicate]
    exact or_iff_left fun hzero => hb hzero.2
  have hthird : s.prefixes.bytes.toList[3]? = some s.prefixes.lastByte := by
    obtain ⟨x₀, x₁, x₂, x₃, heq⟩ := exists_bytes s.prefixes.bytes
    rw [FieldState.lastByte, heq]
    rfl
  have hfull : s.prefixes.lastByte ≠ 0 → nb = 4 := by
    intro hne
    by_contra hnb
    have hlt : nb < 4 := Nat.lt_of_le_of_ne h.nb_le hnb
    rw [h.bytes, List.getElem?_append_right (by rw [← h.nb_eq]; omega), List.getElem?_replicate,
      if_pos (by rw [← h.nb_eq]; omega)] at hthird
    exact hne (Option.some.inj hthird).symm
  have hzero : lb = 0 → s.prefixes.lastByte = 0 := by
    intro hlb
    by_contra hne
    rcases List.eq_nil_or_concat c with rfl | ⟨d, b, rfl⟩
    · exact absurd (h.nb_eq.symm.trans (hfull hne)) (by decide)
    · rw [h.lb_eq, List.concat_eq_append, List.getLast?_concat] at hlb
      exact ne_zero_of_legacy (h.legacy b (by simp)) hlb
  have hlast : lb ≠ 0 → lb ∈ s.prefixes.bytes.toList := by
    intro hlb
    rw [hmem lb hlb]
    rcases List.eq_nil_or_concat c with rfl | ⟨d, b, rfl⟩
    · exact absurd h.lb_eq hlb
    · rw [h.lb_eq, List.concat_eq_append, List.getLast?_concat]
      simp
  obtain ⟨hthree, hset⟩ := setLastPrefix_bytes hzero hlast hfull
  exact ⟨hthree.trans h.lb_eq, fun b hb => (hset b hb).trans (hmem b hb)⟩

theorem setLastPrefix_keeps (nb : Nat) (lb : UInt8) (prefixes : FieldState) :
    (setLastPrefix nb lb prefixes).got = prefixes.got ∧
      (setLastPrefix nb lb prefixes).nbytes = prefixes.nbytes := by
  unfold setLastPrefix
  simp only
  split <;> exact ⟨rfl, rfl⟩

theorem LookedAt.ne_nil {c u : Bytes} (h : LookedAt c u) : c ++ u ≠ [] := by
  rcases h with ⟨hc, -⟩ | ⟨-, b, rfl | ⟨-, b2, rfl⟩⟩
  · exact fun h => hc (List.append_eq_nil_iff.mp h).1
  · exact fun h => absurd (List.append_eq_nil_iff.mp h).2 (List.cons_ne_nil _ _)
  · exact fun h => absurd (List.append_eq_nil_iff.mp h).2 (List.cons_ne_nil _ _)

/-- After the loop there may be a REX prefix. -/
theorem rex_read {s : InsnState} (hnew : s.rexPrefix = {}) (b : UInt8) (rest : Bytes) :
    ∃ rex rest', b :: rest = rex ++ rest' ∧ s.decodeRex (b :: rest) = some (s.withRex rex, rest') ∧
      (rex = [] ∨ s.x8664 = true ∧ rex = [b] ∧ isRexPrefix (getOpcodeAttribute b) = true) ∧
      ∀ rest₂ rest₂', b :: rest₂ = rex ++ rest₂' →
        s.decodeRex (b :: rest₂) = some (s.withRex rex, rest₂') := by
  by_cases hrex : s.x8664 = true ∧ isRexPrefix (getOpcodeAttribute b) = true
  · refine ⟨[b], rest, rfl, ?_, .inr ⟨hrex.1, rfl, hrex.2⟩, fun rest₂ rest₂' heq => ?_⟩
    · rw [decodeRex_cons hnew, if_pos hrex]
    · cases heq
      rw [decodeRex_cons hnew, if_pos hrex]
      rfl
  · refine ⟨[], b :: rest, rfl, ?_, .inl rfl, fun rest₂ rest₂' heq => ?_⟩
    · rw [decodeRex_cons hnew, if_neg hrex]
    · cases heq
      rw [decodeRex_cons hnew, if_neg hrex]

theorem prefixesBody_read {x8664 : Bool} {input r : Bytes} {t : InsnState}
    (h : (insnInit x8664).prefixesBody input = some (t, r)) :
    ∃ legacy rex vex u r', input = legacy ++ (rex ++ vex) ++ r ∧ r = u ++ r' ∧
      PrefixesRead x8664 legacy rex vex u t := by
  obtain ⟨⟨nb, lb, s⟩, r₁, hscan, h⟩ := bind_eq_some.mp h
  obtain ⟨s₂, r₂, hrex, h⟩ := bind_eq_some.mp h
  obtain ⟨s₃, r₃, hvex, h⟩ := bind_eq_some.mp h
  cases h
  obtain ⟨legacy, b, rest, rfl, rfl, hs, hstop, hlook⟩ :=
    scanPrefixes_scanned (scanned_nil x8664) hscan
  rw [List.nil_append] at hs hstop
  have hnew : s.rexPrefix = {} ∧ s.vexPrefix = {} ∧ s.x8664 = x8664 := by
    rw [hs.fields]
    exact ⟨rfl, rfl, rfl⟩
  obtain ⟨rex, rest', hsplit, hrun, hrexcases, hrexlook⟩ :=
    rex_read (s := { s with prefixes := setLastPrefix nb lb s.prefixes }) hnew.1 b rest
  obtain ⟨rfl, rfl⟩ := Prod.mk.inj (Option.some.inj (hrun.symm.trans hrex))
  rcases decodeVex_read (s := withRex { s with prefixes := setLastPrefix nb lb s.prefixes } rex)
    hnew.2.1 rest' with ⟨hnone, -⟩ | ⟨vex, u, r', rfl, hv⟩
  · rw [hnone] at hvex
    cases hvex
  · obtain ⟨rfl, rfl⟩ := Prod.mk.inj (Option.some.inj ((hv.looks r').symm.trans hvex))
    refine ⟨legacy, rex, vex, u, r', ?_, rfl, ?_⟩
    · rw [hsplit]
      simp only [List.append_assoc]
    · have hne : rex ++ (vex ++ u) ≠ [] :=
        fun h => hv.looked.ne_nil (List.append_eq_nil_iff.mp h).2
      obtain ⟨b', tail, hhead⟩ := List.exists_cons_of_ne_nil hne
      have hassoc : ∀ r'', rex ++ (vex ++ (u ++ r'')) = b' :: (tail ++ r'') := fun r'' => by
        rw [← List.cons_append, ← hhead]
        simp only [List.append_assoc]
      obtain ⟨rfl, -⟩ : b = b' ∧ rest = tail ++ r' := List.cons.inj (hsplit.trans (hassoc r'))
      exact {
        looks := fun r'' => by
          have hinput : legacy ++ (rex ++ vex) ++ (u ++ r'') = legacy ++ b :: (tail ++ r'') := by
            rw [← hassoc]
            simp only [List.append_assoc]
          rw [hinput]
          refine bind_eq_some.mpr ⟨_, _, hlook _, bind_eq_some.mpr
            ⟨_, _, hrexlook _ (vex ++ (u ++ r'')) (hassoc r'').symm, bind_eq_some.mpr
              ⟨_, _, hv.looks r'', rfl⟩⟩⟩
        fields := by
          have hkeep := setLastPrefix_keeps nb lb s.prefixes
          generalize setLastPrefix nb lb s.prefixes = prefixes at hkeep
          rw [hs.prefixes_eq] at hkeep
          obtain ⟨bytes, got, nbytes⟩ := prefixes
          obtain ⟨rfl, rfl⟩ := hkeep
          rw [hs.fields]
          rfl
        all_legacy := hs.legacy
        distinct := hs.nb_eq ▸ hs.nb_le
        last := hs.last.1
        mem_iff := hs.last.2
        stop := ⟨b, tail, hhead, fun hb => by
          obtain ⟨rfl, hmem⟩ := hstop hb
          exact ⟨hs.nb_eq.symm, hmem⟩⟩
        rex_cases := hrexcases.imp_right fun ⟨hx, heq, hb⟩ => ⟨hnew.2.2 ▸ hx, b, heq, hb⟩
        looked := hv.looked
        vex_length := hv.length_le
        vex_first := hv.first }

/-- A byte that is no prefix and three more are enough, after whatever input. -/
theorem prefixesBody_isSome (x8664 : Bool) (input : Bytes) {z : UInt8} (hz : ¬Legacy z)
    {pad : Bytes} (hpad : 3 ≤ pad.length) :
    ∃ t r, (insnInit x8664).prefixesBody (input ++ z :: pad) = some (t, r) ∧
      pad.length ≤ r.length + 3 := by
  obtain ⟨⟨nb, lb, s⟩, r₁, hscan, hlen⟩ := scanPrefixes_isSome (scanned_nil x8664) input hz pad
  obtain ⟨legacy, b, rest, -, rfl, hs, -, -⟩ := scanPrefixes_scanned (scanned_nil x8664) hscan
  have hnew : s.rexPrefix = {} ∧ s.vexPrefix = {} := by
    rw [hs.fields]
    exact ⟨rfl, rfl⟩
  obtain ⟨rex, rest', hsplit, hrun, hrex, -⟩ :=
    rex_read (s := { s with prefixes := setLastPrefix nb lb s.prefixes }) hnew.1 b rest
  have hrexlen : rex.length ≤ 1 := by
    rcases hrex with rfl | ⟨-, rfl, -⟩
    · exact Nat.zero_le 1
    · exact Nat.le_refl 1
  have hsplitlen := congrArg List.length hsplit
  rw [List.length_append] at hsplitlen
  rcases decodeVex_read (s := withRex { s with prefixes := setLastPrefix nb lb s.prefixes } rex)
    hnew.2 rest' with ⟨-, hshort⟩ | ⟨vex, u, r', rfl, hv⟩
  · omega
  · refine ⟨_, u ++ r', bind_eq_some.mpr ⟨_, _, hscan, bind_eq_some.mpr ⟨_, _, hrun,
      bind_eq_some.mpr ⟨_, _, hv.looks r', rfl⟩⟩⟩, ?_⟩
    have hvexlen := hv.length_le
    rw [List.length_append] at hsplitlen
    omega

end InsnState

end RtBackup
