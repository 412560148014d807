import RtBackup.InsnFields

/-!
# The opcode and its escapes

Results:
1. `opcodeBody_read`: the opcode is what the function takes, and its attribute is
   found with these bytes and the last prefix. Three bytes are enough.
2. `opcodeAttr_allows`: how much may follow.
-/

namespace RtBackup

open ByteFile InputReader Inat

namespace FieldState

theorem store_of_lt {f : FieldState} {i : Nat} (h : i < 4) (b : UInt8) :
    f.store i b = some { f with bytes := f.bytes.set i b h } := dif_pos h

theorem take_set {bytes : Vector UInt8 4} {i : Nat} (h : i < 4) (b : UInt8) :
    (bytes.set i b h).toList.take (i + 1) = bytes.toList.take i ++ [b] := by
  have hlen : bytes.toList.length = 4 := Vector.length_toList
  rw [Vector.toList_set, List.take_add_one, List.take_set_of_le (Nat.le_refl i),
    List.getElem?_set_self (by omega)]
  rfl

end FieldState

namespace InsnState

open FieldState

theorem pushOpcode_eq {insn : InsnState} (h : insn.opcode.nbytes.toNat < 4) (op : UInt8) :
    ∃ opcode : FieldState, insn.pushOpcode op = some { insn with opcode } ∧
      opcode.fieldBytes = insn.opcode.fieldBytes ++ [op] ∧
      opcode.nbytes.toNat = insn.opcode.nbytes.toNat + 1 ∧ opcode.got = insn.opcode.got := by
  have hnbytes : (insn.opcode.nbytes + 1).toNat = insn.opcode.nbytes.toNat + 1 := by
    have hone : (1 : UInt8).toNat = 1 := rfl
    rw [UInt8.toNat_add, hone]
    exact Nat.mod_eq_of_lt (by omega)
  refine ⟨{ insn.opcode with
    bytes := insn.opcode.bytes.set insn.opcode.nbytes.toNat op h
    nbytes := insn.opcode.nbytes + 1 }, ?_, ?_, hnbytes, rfl⟩
  · rw [pushOpcode, store_of_lt h]
    rfl
  · rw [fieldBytes, hnbytes]
    exact take_set h op

/-- The attribute that the escaped opcodes lead to. -/
def escapedAttr (insn : InsnState) (c : Bytes) : InsnAttr :=
  c.foldl (fun attr op => getEscapeAttribute op insn.lastPrefix attr) insn.attr

/-- What the loop over the escaped opcodes does when it takes `c`. -/
structure Escaped (s t : InsnState) (c : Bytes) : Prop where
  takes : Takes (escapeLoop · s) c t
  fields : t = { s with opcode := t.opcode, attr := t.attr, nextByte := s.nextByte + c.length }
  bytes : t.opcode.fieldBytes = s.opcode.fieldBytes ++ c
  got : t.opcode.got = s.opcode.got
  nbytes : t.opcode.nbytes.toNat = s.opcode.nbytes.toNat + c.length
  attr : t.attr = s.escapedAttr c
  not_escape : isEscape t.attr = false
  escapes : ∀ d, d <+: c → d ≠ c → isEscape (s.escapedAttr d) = true

theorem Escaped.refl {s : InsnState} (h : isEscape s.attr = false) : Escaped s s [] where
  takes r := by
    cases r <;> simp [escapeLoop, h]
  fields := rfl
  bytes := (List.append_nil _).symm
  got := rfl
  nbytes := rfl
  attr := rfl
  not_escape := h
  escapes d hd hne := absurd (List.prefix_nil.mp hd) hne

theorem Escaped.cons {s t : InsnState} {opcode : FieldState} {op : UInt8} {c : Bytes}
    (hesc : isEscape s.attr = true) (hpush : s.pushOpcode op = some { s with opcode })
    (hbytes : opcode.fieldBytes = s.opcode.fieldBytes ++ [op])
    (hnbytes : opcode.nbytes.toNat = s.opcode.nbytes.toNat + 1) (hgot : opcode.got = s.opcode.got)
    (ht : Escaped { s with
      opcode
      attr := getEscapeAttribute op s.lastPrefix s.attr
      nextByte := s.nextByte + 1 } t c) : Escaped s t (op :: c) where
  takes r := by
    simp only [List.cons_append, escapeLoop, hesc, if_true, hpush]
    exact ht.takes r
  fields := by
    rw [ht.fields, List.length_cons, Nat.add_comm c.length 1, ← Nat.add_assoc]
  bytes := by rw [ht.bytes, hbytes, List.append_assoc, List.singleton_append]
  got := ht.got.trans hgot
  nbytes := by
    rw [ht.nbytes, hnbytes, List.length_cons]
    omega
  attr := ht.attr
  not_escape := ht.not_escape
  escapes d hd hne := by
    cases d with
    | nil => exact hesc
    | cons op' d =>
      obtain ⟨rfl, hrest⟩ := List.cons_prefix_cons.mp hd
      exact ht.escapes d hrest fun heq => hne (congrArg (op' :: ·) heq)

/-- The loop ends before the four bytes of the field are used up, unless the input
ends. -/
theorem escapeLoop_cases {s : InsnState} (input : Bytes)
    (hroom : s.opcode.nbytes.toNat + escapeDepth s.attr ≤ 4) :
    escapeLoop input s = none ∧ input.length < escapeDepth s.attr ∨
      ∃ t c r, input = c ++ r ∧ Escaped s t c ∧ c.length ≤ escapeDepth s.attr := by
  induction input generalizing s with
  | nil =>
    cases hesc : isEscape s.attr with
    | false => exact .inr ⟨s, [], [], rfl, .refl hesc, Nat.zero_le _⟩
    | true =>
      refine .inl ⟨if_pos hesc, Nat.pos_of_ne_zero fun hdepth => ?_⟩
      rw [isEscape_of_depth hdepth] at hesc
      cases hesc
  | cons op rest ih =>
    cases hesc : isEscape s.attr with
    | false => exact .inr ⟨s, [], op :: rest, rfl, .refl hesc, Nat.zero_le _⟩
    | true =>
      have hdepth := escapeDepth_escape hesc op s.lastPrefix
      obtain ⟨opcode, hpush, hbytes, hnbytes, hgot⟩ := @pushOpcode_eq s (by omega) op
      have hroom' : opcode.nbytes.toNat + escapeDepth (getEscapeAttribute op s.lastPrefix s.attr) ≤
          4 := by omega
      rcases ih (s := { s with
          opcode
          attr := getEscapeAttribute op s.lastPrefix s.attr
          nextByte := s.nextByte + 1 }) hroom' with ⟨hnone, hshort⟩ | ⟨t, c, r, rfl, ht, hc⟩
      · refine .inl ⟨?_, ?_⟩
        · simp only [escapeLoop, hesc, if_true, hpush]
          exact hnone
        · change rest.length < escapeDepth (getEscapeAttribute op s.lastPrefix s.attr) at hshort
          rw [List.length_cons]
          omega
      · refine .inr ⟨t, op :: c, r, rfl, .cons hesc hpush hbytes hnbytes hgot ht, ?_⟩
        change c.length ≤ escapeDepth (getEscapeAttribute op s.lastPrefix s.attr) at hc
        rw [List.length_cons]
        omega

/-- The attribute of the opcode `op` with the escaped opcodes `c`. -/
def opcodeAttr (insn : InsnState) (op : UInt8) (c : Bytes) : InsnAttr :=
  if insn.isAvx then
    let attr := getAvxAttribute op insn.vexMBits insn.vexPBits
    if acceptVex attr then attr else 0
  else
    let attr := { insn with attr := getOpcodeAttribute op }.escapedAttr c
    if mustVex attr then 0 else attr

/-- What `insn_get_opcode` does when it takes `op :: c`. -/
structure OpcodeRead (s t : InsnState) (op : UInt8) (c : Bytes) : Prop where
  takes : Takes s.opcodeBody (op :: c) t
  fields : t = { s with
    opcode := t.opcode
    attr := s.opcodeAttr op c
    nextByte := s.nextByte + (op :: c).length }
  bytes : t.opcode.fieldBytes = op :: c
  got : t.opcode.got = true
  nbytes : t.opcode.nbytes.toNat = (op :: c).length
  length_le : (op :: c).length ≤ 3
  of_vex : s.isAvx = true → c = []
  not_escape : s.isAvx = false →
    isEscape ({ s with attr := getOpcodeAttribute op }.escapedAttr c) = false
  escapes : s.isAvx = false → ∀ d, d <+: c → d ≠ c →
    isEscape ({ s with attr := getOpcodeAttribute op }.escapedAttr d) = true

/-- After the first opcode byte. -/
def withFirst (insn : InsnState) (op : UInt8) : InsnState :=
  { insn.startOpcode op with attr := getOpcodeAttribute op, nextByte := insn.nextByte + 1 }

/-- The end of `insn_get_opcode`. -/
def withAttr (insn : InsnState) (attr : InsnAttr) : InsnState :=
  { insn with opcode := { insn.opcode with got := true }, attr }

theorem opcodeBody_cons (s : InsnState) (op : UInt8) (rest : Bytes) :
    s.opcodeBody (op :: rest) =
      if s.isAvx then some ((s.withFirst op).withAttr (s.opcodeAttr op []), rest)
      else (escapeLoop rest (s.withFirst op)).map fun p =>
        (p.1.withAttr (if mustVex p.1.attr then 0 else p.1.attr), p.2) := by
  unfold opcodeBody getByte
  rw [bind_assoc, bind_apply]
  simp only [next, Option.bind_some, pure_bind]
  by_cases havx : s.isAvx = true
  · rw [if_pos havx, opcodeAttr, if_pos havx]
    exact congrFun (if_pos havx) rest
  · rw [if_neg havx]
    refine (congrFun (if_neg havx) rest).trans ?_
    rw [bind_apply]
    change (escapeLoop rest (s.withFirst op)).bind _ = _
    cases escapeLoop rest (s.withFirst op) <;> rfl

theorem opcodeBody_read {s : InsnState} (hnew : s.opcode = {}) (input : Bytes) :
    s.opcodeBody input = none ∧ input.length < 3 ∨
      ∃ t op c r, input = op :: c ++ r ∧ OpcodeRead s t op c := by
  cases input with
  | nil => exact .inl ⟨rfl, by decide⟩
  | cons op rest =>
    have hfirst : (s.withFirst op).opcode.fieldBytes = [op] := by
      rw [withFirst, startOpcode, hnew]
      rfl
    have hone : (s.withFirst op).opcode.nbytes.toNat = 1 := rfl
    cases havx : s.isAvx with
    | true =>
      refine .inr ⟨(s.withFirst op).withAttr (s.opcodeAttr op []), op, [], rest, rfl,
        fun r => ?_, rfl, hfirst, rfl, hone, by simp,
        fun _ => rfl, fun h => ?_, fun _ d hd hne => absurd (List.prefix_nil.mp hd) hne⟩
      · rw [List.singleton_append, opcodeBody_cons, if_pos havx]
      · rw [havx] at h
        cases h
    | false =>
      have hdepth := escapeDepth_le (getOpcodeAttribute op)
      have hroom : (s.withFirst op).opcode.nbytes.toNat + escapeDepth (getOpcodeAttribute op) ≤ 4 := by
        omega
      rcases escapeLoop_cases (s := s.withFirst op) rest hroom with
        ⟨hnone, hshort⟩ | ⟨t, c, r, rfl, ht, hc⟩
      · refine .inl ⟨?_, ?_⟩
        · rw [opcodeBody_cons, havx, hnone]
          rfl
        · change rest.length < escapeDepth (getOpcodeAttribute op) at hshort
          rw [List.length_cons]
          omega
      · have hlen := Nat.le_trans hc hdepth
        refine .inr ⟨t.withAttr (s.opcodeAttr op c), op, c, r, rfl, fun r' => ?_, ?_, ?_, rfl, ?_, ?_,
          fun h => ?_, fun _ => ?_, fun _ => ht.escapes⟩
        · have hrun : escapeLoop (c ++ r') (s.withFirst op) = some (t, r') := ht.takes r'
          have hattr : s.opcodeAttr op c = if mustVex t.attr then 0 else t.attr := by
            rw [opcodeAttr, havx, ht.attr]
            rfl
          rw [List.cons_append, opcodeBody_cons, havx, hrun, hattr]
          rfl
        · rw [ht.fields, List.length_cons, Nat.add_comm c.length 1, ← Nat.add_assoc]
          rfl
        · rw [← List.singleton_append, ← hfirst]
          exact ht.bytes
        · rw [List.length_cons, Nat.add_comm]
          exact ht.nbytes
        · rw [List.length_cons]
          omega
        · rw [havx] at h
          cases h
        · have hattr := ht.not_escape
          rw [ht.attr] at hattr
          exact hattr

/-! ## What the opcode allows -/

/-- The bytes that may follow the opcode: escaped opcodes and those with a VEX prefix
have no large immediates. -/
def opcodeRoom (insn : InsnState) (c : Bytes) : Nat := if insn.isAvx ∨ c ≠ [] then 7 else 10

theorem opcodeRoom_le (insn : InsnState) (c : Bytes) : insn.opcodeRoom c ≤ 10 := by
  unfold opcodeRoom
  split <;> decide

theorem escapedAttr_allows {s : InsnState} {c : Bytes} (hne : c ≠ []) :
    GroupAllows 7 (s.escapedAttr c) := by
  obtain ⟨d, op, rfl⟩ := (List.eq_nil_or_concat c).resolve_left hne
  rw [List.concat_eq_append, escapedAttr, List.foldl_append]
  exact getEscapeAttribute_allows op s.lastPrefix _

theorem opcodeAttr_allows (s : InsnState) (op : UInt8) (c : Bytes) :
    GroupAllows (s.opcodeRoom c) (s.opcodeAttr op c) := by
  have hzero7 : GroupAllows 7 0 := by decide +kernel
  by_cases havx : s.isAvx = true
  · rw [opcodeRoom, if_pos (.inl havx), opcodeAttr, if_pos havx]
    simp only
    split
    · exact getAvxAttribute_allows op s.vexMBits s.vexPBits
    · exact hzero7
  · rw [opcodeAttr, if_neg havx]
    by_cases hc : c = []
    · have hroom : s.opcodeRoom c = 10 := if_neg fun h => h.elim havx fun hne => hne hc
      rw [hroom, hc]
      simp only
      split
      · exact hzero7.mono (by decide)
      · exact getOpcodeAttribute_allows op
    · have hroom : s.opcodeRoom c = 7 := if_pos (.inr hc)
      rw [hroom]
      simp only
      split
      · exact hzero7
      · exact escapedAttr_allows hc

end InsnState

end RtBackup
