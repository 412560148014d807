import RtBackup.Lib.ByteFile

/-!
# Programs that read a message in memory

A program that is given a pointer reads fields at fixed offsets and strings in
fixed fields. Whether these bytes belong to the message is another question than
what they are: memory goes on behind the message. A `Traced` computation records
what it reads beside what it computes. It has no result where a string has no
terminator in its field, since a copy of it into a field of the same size is
undefined.

Results:
1. `inside_bind`: the reads of a composed program lie inside the message exactly
   if those of its first part do, and those of the second part on its result.
2. `inside_readField_bind`, `inside_readString_bind`: a program that goes on
   after a read inside the message.
-/

namespace BoundedReads

open ByteFile

/-- The bytes from the start of the message on. -/
abbrev Memory := Nat → UInt8

def Memory.bytesAt (mem : Memory) (offset size : Nat) : Bytes :=
  (List.range size).map fun i : Nat => mem (offset + i)

/-- What is read of a message that lies in memory. -/
theorem Memory.bytesAt_eq_pread {mem : Memory} {message : Bytes}
    (h : mem.bytesAt 0 message.length = message) {offset size : Nat}
    (hle : offset + size ≤ message.length) :
    mem.bytesAt offset size = pread message offset size := by
  rw [← h, bytesAt, bytesAt, pread]
  refine List.ext_getElem ?_ fun i _ _ => ?_
  · simp only [List.length_map, List.length_range, List.length_take, List.length_drop]
    omega
  · simp only [List.getElem_map, List.getElem_range, List.getElem_take, List.getElem_drop,
      Nat.zero_add]

/-- The string in a `char[size]`, if it ends there. -/
def Memory.stringAt (mem : Memory) (offset size : Nat) : Option (FieldString size) :=
  if 0 ∈ mem.bytesAt offset size then some (FieldString.ofField size (mem.bytesAt offset size))
  else none

inductive Read
  | field (offset size : Nat)
  /-- A string up to its terminator, in a field of this size. -/
  | string (offset size : Nat)

/-- The bytes belong to a message of `bound` bytes, and a string ends in its
field. -/
def Read.Inside (mem : Memory) (bound : Nat) : Read → Prop
  | .field offset size => offset + size ≤ bound
  | .string offset size =>
    match mem.stringAt offset size with
    | some s => offset + s.bytes.length < bound
    | none => False

instance (mem : Memory) (bound : Nat) (r : Read) : Decidable (r.Inside mem bound) := by
  unfold Read.Inside
  split
  · infer_instance
  · split <;> infer_instance

/-- A result together with what was read for it, in order. -/
structure Traced (α : Type) where
  reads : List Read
  result : Option α

variable {α β : Type}

namespace Traced

instance : Monad Traced where
  pure a := ⟨[], some a⟩
  bind x f :=
    match x.result with
    | some a => ⟨x.reads ++ (f a).reads, (f a).result⟩
    | none => ⟨x.reads, none⟩

def readField (mem : Memory) (c : Codec α) (offset : Nat) : Traced α where
  reads := [.field offset c.size]
  result := some (c.dec (mem.bytesAt offset c.size))

def readString (mem : Memory) (offset size : Nat) : Traced (FieldString size) where
  reads := [.string offset size]
  result := mem.stringAt offset size

/-- All reads lie inside a message of `bound` bytes. -/
def Inside (mem : Memory) (bound : Nat) (x : Traced α) : Prop :=
  ∀ r ∈ x.reads, r.Inside mem bound

instance (mem : Memory) (bound : Nat) (x : Traced α) : Decidable (x.Inside mem bound) :=
  inferInstanceAs (Decidable (∀ r ∈ x.reads, r.Inside mem bound))

variable {mem : Memory} {bound : Nat}

@[simp] theorem result_pure (a : α) : (pure a : Traced α).result = some a := rfl

@[simp] theorem result_readField (c : Codec α) (offset : Nat) :
    (readField mem c offset).result = some (c.dec (mem.bytesAt offset c.size)) := rfl

@[simp] theorem result_readString (offset size : Nat) :
    (readString mem offset size).result = mem.stringAt offset size := rfl

theorem bind_of_some {x : Traced α} {a : α} (h : x.result = some a) (f : α → Traced β) :
    x >>= f = ⟨x.reads ++ (f a).reads, (f a).result⟩ := by
  show (match x.result with | some a => _ | none => _) = _
  rw [h]

theorem bind_of_none {x : Traced α} (h : x.result = none) (f : α → Traced β) :
    x >>= f = ⟨x.reads, none⟩ := by
  show (match x.result with | some a => _ | none => _) = _
  rw [h]

theorem result_bind (x : Traced α) (f : α → Traced β) :
    (x >>= f).result = x.result.bind fun a => (f a).result := by
  cases h : x.result with
  | some a => rw [bind_of_some h, Option.bind_some]
  | none => rw [bind_of_none h, Option.bind_none]

@[simp] theorem inside_pure (a : α) : (pure a : Traced α).Inside mem bound :=
  nofun

@[simp] theorem inside_readField (c : Codec α) (offset : Nat) :
    (readField mem c offset).Inside mem bound ↔ offset + c.size ≤ bound :=
  List.forall_mem_singleton

@[simp] theorem inside_readString (offset size : Nat) :
    (readString mem offset size).Inside mem bound ↔
      (Read.string offset size).Inside mem bound :=
  List.forall_mem_singleton

theorem inside_bind {x : Traced α} {f : α → Traced β} :
    (x >>= f).Inside mem bound ↔
      x.Inside mem bound ∧ ∀ a, x.result = some a → (f a).Inside mem bound := by
  cases h : x.result with
  | some a =>
    rw [bind_of_some h, Inside, List.forall_mem_append]
    exact and_congr_right fun _ => ⟨fun hf b hb => Option.some.inj hb ▸ hf, fun hf => hf a rfl⟩
  | none =>
    rw [bind_of_none h]
    exact ⟨fun hx => ⟨hx, nofun⟩, fun hx => hx.1⟩

theorem result_bind_pure (x : Traced α) (f : α → β) :
    (x >>= fun a => pure (f a)).result = x.result.map f := by
  rw [result_bind]
  cases x.result <;> rfl

theorem inside_bind_pure {x : Traced α} {f : α → β} :
    (x >>= fun a => pure (f a)).Inside mem bound ↔ x.Inside mem bound :=
  inside_bind.trans (and_iff_left fun _ _ => inside_pure _)

/-- A string that is read inside the message is there. -/
theorem stringAt_of_inside {offset size : Nat} (h : (Read.string offset size).Inside mem bound) :
    mem.stringAt offset size =
        some (FieldString.ofField size (mem.bytesAt offset size)) ∧ offset < bound := by
  by_cases hz : 0 ∈ mem.bytesAt offset size
  · have hs : mem.stringAt offset size = some (FieldString.ofField size (mem.bytesAt offset size)) :=
      if_pos hz
    simp only [Read.Inside, hs] at h
    exact ⟨hs, Nat.lt_of_le_of_lt (Nat.le_add_right _ _) h⟩
  · have hs : mem.stringAt offset size = none := if_neg hz
    simp only [Read.Inside, hs] at h

/-! ## A read and what follows it -/

@[simp] theorem result_readField_bind (c : Codec α) (offset : Nat) (f : α → Traced β) :
    (readField mem c offset >>= f).result = (f (c.dec (mem.bytesAt offset c.size))).result :=
  rfl

theorem inside_readField_bind {c : Codec α} {offset : Nat} (h : offset + c.size ≤ bound)
    (f : α → Traced β) :
    (readField mem c offset >>= f).Inside mem bound ↔
      (f (c.dec (mem.bytesAt offset c.size))).Inside mem bound := by
  rw [inside_bind, inside_readField, and_iff_right h]
  exact ⟨fun hf => hf _ rfl, fun hf _ ha => Option.some.inj ha ▸ hf⟩

theorem result_readString_bind {offset size : Nat} (h : (Read.string offset size).Inside mem bound)
    (f : FieldString size → Traced β) :
    (readString mem offset size >>= f).result =
      (f (FieldString.ofField size (mem.bytesAt offset size))).result := by
  rw [result_bind, result_readString, (stringAt_of_inside h).1, Option.bind_some]

theorem inside_readString_bind {offset size : Nat} (h : (Read.string offset size).Inside mem bound)
    (f : FieldString size → Traced β) :
    (readString mem offset size >>= f).Inside mem bound ↔
      (f (FieldString.ofField size (mem.bytesAt offset size))).Inside mem bound := by
  rw [inside_bind, inside_readString, and_iff_right h, result_readString, (stringAt_of_inside h).1]
  exact ⟨fun hf => hf _ rfl, fun hf _ ha => Option.some.inj ha ▸ hf⟩

end Traced

end BoundedReads
