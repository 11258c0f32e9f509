import JsonLisp.Json.Read
import JsonLisp.Json.Write

/-!
# Reading strings back

Each code point is written as one unit of a string: as it stands, with a short escape, or, if it
is any other control character, by its number. Numbered units are below the surrogates, so no two
of them are joined, and surrogates that stand next to each other in a text stay apart.

## Main definitions

* `Json.unitOf`: the unit that a code point is written as.
* `Json.readString_flatMap`: a text between quotes is read back.
-/

namespace JsonLisp.Json

/-- The unit that a code point is written as. -/
def unitOf (c : CodePoint) : StringUnit :=
  if c < 32 ∧ c ∉ [8, 9, 10, 12, 13] then .numbered c else .plain c

/-- A number that is not a high surrogate is not joined with what follows it. -/
theorem joinUnits_numbered {c : CodePoint} (hc : isHighSurrogate c = false)
    (units : List StringUnit) : joinUnits (.numbered c :: units) = c :: joinUnits units := by
  cases units with
  | nil => rfl
  | cons u units =>
    cases u with
    | plain d => rfl
    | numbered low => rw [joinUnits, hc, Bool.false_and, if_neg Bool.false_ne_true]

theorem joinUnits_unitOf (t : Text) : joinUnits (t.map unitOf) = t := by
  induction t with
  | nil => rfl
  | cons c t ih =>
    rw [List.map_cons, unitOf]
    split
    · rename_i hc
      have hlow : ¬ 0xD800 ≤ c := Nat.not_le.2 (Nat.lt_trans hc.1 (by decide))
      rw [joinUnits_numbered (by simp [isHighSurrogate, hlow]), ih]
    · rw [joinUnits, ih]

/-! ### One unit -/

theorem hexValue?_hexDigit : ∀ d < 16, hexValue? (Text.hexDigit d) = some d := by decide

theorem hexDigits_sum {n : Nat} (hn : n < 0x10000) :
    4096 * (n / 16 / 16 / 16 % 16) + 256 * (n / 16 / 16 % 16) + 16 * (n / 16 % 16) + n % 16 = n := by
  omega

theorem hexNumber?_hex {c : CodePoint} (hc : c < 0x10000) :
    ∃ w x y z, Text.hex 4 c = [w, x, y, z] ∧ hexNumber? w x y z = some c := by
  have hdigit (n : Nat) := hexValue?_hexDigit (n % 16) (Nat.mod_lt n (by decide))
  refine ⟨_, _, _, _, rfl, ?_⟩
  simp only [hexNumber?, hdigit, Option.pure_def, Option.bind_eq_bind, Option.bind_some]
  rw [hexDigits_sum hc]

theorem readUnits_plain (opening : Nat) {c : CodePoint} (hc : 32 ≤ c) (hquote : c ≠ 34)
    (hbackslash : c ≠ 92) (rest : Text) :
    readUnits opening (c :: rest) = (do
      let (units, after) ← readUnits opening rest
      return (.plain c :: units, after)) := by
  rw [readUnits, if_neg (Nat.not_lt.2 hc)]
  · exact hquote
  · exact fun h _ => hbackslash h
  · exact fun _ _ _ _ _ _ h _ => hbackslash h
  · exact fun _ h _ => hbackslash h
  · exact fun _ _ h _ => hbackslash h

theorem readUnits_numbered (opening : Nat) {c : CodePoint} (hc : c < 0x10000) (e : CodePoint)
    (rest : Text) :
    readUnits opening (Text.ofString "\\u" ++ Text.hex 4 c ++ e :: rest) = (do
      let (units, after) ← readUnits opening (e :: rest)
      return (.numbered c :: units, after)) := by
  obtain ⟨w, x, y, z, hhex, hnumber⟩ := hexNumber?_hex hc
  rw [hhex]
  change readUnits opening (92 :: 117 :: w :: x :: y :: z :: e :: rest) = _
  rw [readUnits, hnumber]

/-- The escape of a code point is read as its unit, before anything that goes on. -/
theorem readUnits_escapeChar (opening : Nat) (c e : CodePoint) (rest : Text) :
    readUnits opening (escapeChar c ++ e :: rest) = (do
      let (units, after) ← readUnits opening (e :: rest)
      return (unitOf c :: units, after)) := by
  unfold escapeChar
  split
  · subst_vars
    rfl
  split
  · subst_vars
    rfl
  split
  · rename_i hquote hbackslash hc
    have hunit : unitOf c = .plain c := if_neg fun h => Nat.not_lt.2 hc h.1
    rw [hunit]
    exact readUnits_plain opening hc hquote hbackslash (e :: rest)
  split
  · subst_vars
    rfl
  split
  · subst_vars
    rfl
  split
  · subst_vars
    rfl
  split
  · subst_vars
    rfl
  split
  · subst_vars
    rfl
  · rename_i hc h8 h9 h10 h12 h13
    have hlt : c < 32 := Nat.not_le.1 hc
    have hunit : unitOf c = .numbered c := if_pos ⟨hlt, by simp [h8, h9, h10, h12, h13]⟩
    rw [hunit]
    exact readUnits_numbered opening (Nat.lt_trans hlt (by decide)) e rest

/-! ### Whole strings -/

theorem readUnits_flatMap (opening : Nat) (t rest : Text) :
    readUnits opening (t.flatMap escapeChar ++ 34 :: rest) = .ok (t.map unitOf, rest) := by
  induction t with
  | nil => rfl
  | cons c t ih =>
    rw [List.flatMap_cons, List.append_assoc]
    -- A numbered escape is read only if something follows it; here it is the closing quote at last.
    have hne : t.flatMap escapeChar ++ 34 :: rest ≠ [] :=
      List.append_ne_nil_of_right_ne_nil _ (List.cons_ne_nil _ _)
    obtain ⟨e, after, hnext⟩ := List.exists_cons_of_ne_nil hne
    rw [hnext] at ih ⊢
    rw [readUnits_escapeChar, ih]
    rfl

/-- A text between quotes is read back. -/
theorem readString_flatMap (t rest : Text) :
    readString (t.flatMap escapeChar ++ 34 :: rest) = .ok (t, rest) := by
  rw [readString, readUnits_flatMap]
  change Except.ok (joinUnits (t.map unitOf), rest) = _
  rw [joinUnits_unitOf]

theorem quote_append (t rest : Text) :
    quote t ++ rest = 34 :: (t.flatMap escapeChar ++ 34 :: rest) := by
  simp [quote]

end JsonLisp.Json
