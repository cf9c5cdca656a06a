import Mathlib.Data.List.Basic

/-!
Values written one after another into a stream, and a reader that takes them off
its front as they arrive. Nothing here refers to the server.
-/

namespace ModServer.Library

/-- A reader of values that are written with `encode`. What it reads from a
stream it also reads when more of the stream has arrived. -/
structure Codec (V E : Type) where
  encode : V → List E
  decode : List E → Option (V × List E)
  decode_nil : decode [] = none
  decode_encode : ∀ v, decode (encode v) = some (v, [])
  decode_more : ∀ l v rest more, decode l = some (v, rest) →
    decode (l ++ more) = some (v, rest ++ more)

namespace Codec

variable {V E : Type}

/-- The values at the front of a stream, as far as they can be read, and what is
left. `fuel` bounds their number. -/
def decodeAll (codec : Codec V E) : Nat → List E → List V × List E
  | 0, l => ([], l)
  | fuel + 1, l =>
      match codec.decode l with
      | none => ([], l)
      | some (v, rest) => (v :: (codec.decodeAll fuel rest).1, (codec.decodeAll fuel rest).2)

/-- A value takes up something, so the length of a stream bounds the number of
values in it. -/
def decodeStream (codec : Codec V E) (l : List E) : List V × List E :=
  codec.decodeAll l.length l

variable {codec : Codec V E}

theorem decode_append (v : V) (rest : List E) :
    codec.decode (codec.encode v ++ rest) = some (v, rest) :=
  codec.decode_more _ v [] rest (codec.decode_encode v)

theorem encode_ne_nil (v : V) : codec.encode v ≠ [] := by
  intro hnil
  have hread := codec.decode_encode v
  rw [hnil, codec.decode_nil] at hread
  cases hread

/-- Nothing is read from a part of a value. -/
theorem decode_part {v : V} {part more : List E} (h : codec.encode v = part ++ more)
    (hmore : more ≠ []) : codec.decode part = none := by
  cases hpart : codec.decode part with
  | none => rfl
  | some read =>
      obtain ⟨w, rest⟩ := read
      have hwhole := codec.decode_more part w rest more hpart
      rw [← h, codec.decode_encode, Option.some.injEq, Prod.mk.injEq] at hwhole
      exact absurd (List.append_eq_nil_iff.mp hwhole.2.symm).2 hmore

theorem length_le_flatMap_encode (vs : List V) : vs.length ≤ (vs.flatMap codec.encode).length := by
  induction vs with
  | nil => exact Nat.le_refl _
  | cons v vs ih =>
      have hpos := List.length_pos_of_ne_nil (@encode_ne_nil V E codec v)
      rw [List.flatMap_cons, List.length_append, List.length_cons]
      omega

theorem decodeAll_append (vs : List V) {part : List E} (hpart : codec.decode part = none)
    {fuel : Nat} (hfuel : vs.length ≤ fuel) :
    codec.decodeAll fuel (vs.flatMap codec.encode ++ part) = (vs, part) := by
  induction vs generalizing fuel with
  | nil =>
      cases fuel with
      | zero => rfl
      | succ fuel =>
          rw [List.flatMap_nil, List.nil_append, decodeAll, hpart]
  | cons v vs ih =>
      cases fuel with
      | zero => cases hfuel
      | succ fuel =>
          rw [List.flatMap_cons, List.append_assoc, decodeAll, decode_append]
          simp only [ih (Nat.le_of_succ_le_succ hfuel)]

/-- Of values that were written, the last one perhaps in part, exactly those that
were written in full are read. -/
theorem decodeStream_append (vs : List V) {part : List E} (hpart : codec.decode part = none) :
    codec.decodeStream (vs.flatMap codec.encode ++ part) = (vs, part) := by
  apply decodeAll_append vs hpart
  have hlength := @length_le_flatMap_encode V E codec vs
  rw [List.length_append]
  omega

theorem decodeStream_flatMap (vs : List V) :
    codec.decodeStream (vs.flatMap codec.encode) = (vs, []) := by
  have hread := decodeStream_append vs codec.decode_nil
  rw [List.append_nil] at hread
  exact hread

/-- Different lists of values are written differently. -/
theorem flatMap_encode_injective {vs ws : List V}
    (h : vs.flatMap codec.encode = ws.flatMap codec.encode) : vs = ws := by
  have hvs := @decodeStream_flatMap V E codec vs
  rw [h, decodeStream_flatMap] at hvs
  exact (congrArg Prod.fst hvs).symm

end Codec

end ModServer.Library
