import Mathlib.Data.BitVec

/-!
# Variable-length counts

A count in bytes of seven bits each, the lowest first, every byte but the last with its top bit up; and a
stream of records made of two counts and the bytes the second one counts.
-/

namespace MuirFpga.Arith

/-- A count's bytes. -/
def varint (v : Nat) : List (BitVec 8) :=
  if v / 128 = 0 then [BitVec.ofNat 8 (v % 128)] else BitVec.ofNat 8 (v % 128 + 128) :: varint (v / 128)
termination_by v
decreasing_by omega

/-- The count at the front of some bytes, and what is behind it. -/
def readVarint : List (BitVec 8) → Option (Nat × List (BitVec 8))
  | [] => none
  | byte :: rest =>
    if byte.toNat < 128 then some (byte.toNat, rest)
    else (readVarint rest).map fun (v, rest) => (byte.toNat % 128 + 128 * v, rest)

theorem readVarint_varint (v : Nat) (rest : List (BitVec 8)) : readVarint (varint v ++ rest) = some (v, rest) := by
  induction v using Nat.strong_induction_on with
  | _ v ih =>
    rw [varint]
    split
    · rename_i last
      have byte : (BitVec.ofNat 8 (v % 128)).toNat = v := by
        rw [BitVec.toNat_ofNat]
        omega
      rw [List.singleton_append, readVarint, if_pos (by omega), byte]
    · rename_i more
      have byte : (BitVec.ofNat 8 (v % 128 + 128)).toNat = v % 128 + 128 := by
        rw [BitVec.toNat_ofNat]
        omega
      rw [List.cons_append, readVarint, if_neg (by omega), ih (v / 128) (by omega), byte, Option.map_some]
      simp only [Option.some.injEq, Prod.mk.injEq, and_true]
      omega

theorem readVarint_length {bytes rest : List (BitVec 8)} {v : Nat} (read : readVarint bytes = some (v, rest)) :
    rest.length < bytes.length := by
  induction bytes generalizing v with
  | nil => exact absurd read.symm (Option.some_ne_none _)
  | cons byte bytes ih =>
    rw [readVarint] at read
    split at read
    · obtain ⟨-, rfl⟩ := Prod.mk.inj (Option.some.inj read)
      exact Nat.lt_succ_self _
    · obtain ⟨⟨w, behind⟩, inner, same⟩ := Option.map_eq_some_iff.mp read
      obtain ⟨-, rfl⟩ := Prod.mk.inj same
      exact Nat.lt_succ_of_lt (ih inner)

/-- A record: a run of zeros, and the bytes after it. -/
structure ZeroRecord where
  zeros : Nat
  literals : List (BitVec 8)

namespace ZeroRecord

/-- It in a stream: the two counts, and the bytes. -/
def encode (r : ZeroRecord) : List (BitVec 8) := varint r.zeros ++ varint r.literals.length ++ r.literals

/-- What it stands for. -/
def bytes (r : ZeroRecord) : List (BitVec 8) := List.replicate r.zeros 0#8 ++ r.literals

end ZeroRecord

/-- The bytes a stream of records stands for; none where it ends inside one. -/
def unpack (stream : List (BitVec 8)) : Option (List (BitVec 8)) :=
  if stream = [] then some []
  else
    match _h : readVarint stream with
    | none => none
    | some (zeros, behind) =>
      match _g : readVarint behind with
      | none => none
      | some (count, rest) =>
        if rest.length < count then none
        else (unpack (rest.drop count)).map fun bytes => List.replicate zeros 0#8 ++ rest.take count ++ bytes
termination_by stream.length
decreasing_by
  have first := readVarint_length _h
  have second := readVarint_length _g
  rw [List.length_drop]
  omega

theorem unpack_read {stream behind rest : List (BitVec 8)} {zeros count : Nat}
    (first : readVarint stream = some (zeros, behind)) (second : readVarint behind = some (count, rest)) :
    unpack stream
      = if rest.length < count then none
        else (unpack (rest.drop count)).map fun bytes => List.replicate zeros 0#8 ++ rest.take count ++ bytes := by
  have more : stream ≠ [] := by
    rintro rfl
    exact absurd first.symm (Option.some_ne_none _)
  rw [unpack, if_neg more]
  split
  · rename_i none_
    exact absurd (first.symm.trans none_) (Option.some_ne_none _)
  · rename_i zeros' behind' read
    obtain ⟨rfl, rfl⟩ := Prod.mk.inj (Option.some.inj (first.symm.trans read))
    split
    · rename_i none_
      exact absurd (second.symm.trans none_) (Option.some_ne_none _)
    · rename_i count' rest' read'
      obtain ⟨rfl, rfl⟩ := Prod.mk.inj (Option.some.inj (second.symm.trans read'))
      rfl

theorem unpack_encode (records : List ZeroRecord) :
    unpack (records.flatMap ZeroRecord.encode) = some (records.flatMap ZeroRecord.bytes) := by
  induction records with
  | nil =>
    rw [List.flatMap_nil, unpack, if_pos rfl]
    rfl
  | cons r records ih =>
    have first : readVarint (r.encode ++ records.flatMap ZeroRecord.encode)
        = some (r.zeros, varint r.literals.length ++ (r.literals ++ records.flatMap ZeroRecord.encode)) := by
      rw [ZeroRecord.encode, List.append_assoc, List.append_assoc]
      exact readVarint_varint _ _
    have second := readVarint_varint r.literals.length (r.literals ++ records.flatMap ZeroRecord.encode)
    have fits : ¬(r.literals ++ records.flatMap ZeroRecord.encode).length < r.literals.length := by
      rw [List.length_append]
      omega
    rw [List.flatMap_cons, List.flatMap_cons, unpack_read first second, if_neg fits, List.drop_left, List.take_left,
      ih, Option.map_some]
    rfl

end MuirFpga.Arith
