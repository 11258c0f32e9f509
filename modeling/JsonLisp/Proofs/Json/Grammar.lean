import JsonLisp.Proofs.Json.Number
import JsonLisp.Proofs.Json.Sound
import Mathlib.Data.Nat.Digits.Defs

/-!
# The grammar of JSON

The texts of RFC 8259 with the documents that they stand for, one constructor for each way to
write a phrase. There are two bounds that the RFC leaves to the reader: an integer literal has at
most 4300 digits, and a literal with a fraction or an exponent is near a finite number.

## Main definitions

* `Json.Grammar.Quotes`: string literals and their texts.
* `Json.Grammar.Numeral`: number literals and their numbers.
* `Json.Grammar.Keeps`: what an object keeps of its members.
* `Json.Grammar.Denotes`: documents and their parts.
-/

namespace JsonLisp.Json.Grammar

/-- Spaces, tabs, line feeds and carriage returns. -/
def Blank (t : Text) : Prop := ∀ c ∈ t, c = 0x20 ∨ c = 0x09 ∨ c = 0x0A ∨ c = 0x0D

/-! ### Strings -/

/-- A hexadecimal digit, in upper or lower case, and its value. -/
inductive HexDigit : CodePoint → Nat → Prop
  | decimal {d : Nat} : d < 10 → HexDigit (0x30 + d) d
  | upper {d : Nat} : d < 6 → HexDigit (0x41 + d) (10 + d)
  | lower {d : Nat} : d < 6 → HexDigit (0x61 + d) (10 + d)

/-- Exactly four hexadecimal digits. -/
inductive FourHex : Text → Nat → Prop
  | intro {a b c d : CodePoint} {w x y z : Nat} :
      HexDigit a w → HexDigit b x → HexDigit c y → HexDigit d z →
      FourHex [a, b, c, d] (((w * 16 + x) * 16 + y) * 16 + z)

/-- The letters behind a backslash and the code points they stand for. -/
def escapes : List (CodePoint × CodePoint) :=
  [(0x22, 0x22), (0x5C, 0x5C), (0x2F, 0x2F), (0x62, 0x08), (0x66, 0x0C), (0x6E, 0x0A),
    (0x72, 0x0D), (0x74, 0x09)]

/-- The inside of a string literal, unit by unit. -/
inductive Units : Text → List StringUnit → Prop
  | nil : Units [] []
  | unescaped {c : CodePoint} {s : Text} {units : List StringUnit} :
      0x20 ≤ c → c ≠ 0x22 → c ≠ 0x5C → Units s units → Units (c :: s) (.plain c :: units)
  | escaped {x c : CodePoint} {s : Text} {units : List StringUnit} :
      (x, c) ∈ escapes → Units s units → Units (0x5C :: x :: s) (.plain c :: units)
  | numbered {hex : Text} {n : Nat} {s : Text} {units : List StringUnit} :
      FourHex hex n → Units s units → Units (0x5C :: 0x75 :: (hex ++ s)) (.numbered n :: units)

def IsHigh (n : Nat) : Prop := 0xD800 ≤ n ∧ n ≤ 0xDBFF

def IsLow (n : Nat) : Prop := 0xDC00 ≤ n ∧ n ≤ 0xDFFF

/-- The text of the units: a high surrogate and a low one right behind it, both escaped, are one
code point, and any other surrogate stands alone. -/
inductive Joins : List StringUnit → Text → Prop
  | nil : Joins [] []
  | plain {c : CodePoint} {units : List StringUnit} {t : Text} :
      Joins units t → Joins (.plain c :: units) (c :: t)
  | pair {high low : Nat} {units : List StringUnit} {t : Text} :
      IsHigh high → IsLow low → Joins units t →
      Joins (.numbered high :: .numbered low :: units)
        ((0x10000 + (high - 0xD800) * 0x400 + (low - 0xDC00)) :: t)
  | alone {n : Nat} {units : List StringUnit} {t : Text} :
      (IsHigh n → ∀ low, units.head? = some (.numbered low) → ¬ IsLow low) →
      Joins units t → Joins (.numbered n :: units) (n :: t)

/-- A string literal and its text. -/
inductive Quotes : Text → Text → Prop
  | intro {s t : Text} {units : List StringUnit} :
      Units s units → Joins units t → Quotes (0x22 :: (s ++ [0x22])) t

/-! ### Numbers -/

/-- The number that decimal digits denote. -/
def digitsValue (ds : Text) : Nat := Nat.ofDigits 10 (ds.reverse.map (· - 0x30))

def signed (negative : Bool) (n : Nat) : Int := if negative then -n else n

inductive Sign : Text → Bool → Prop
  | absent : Sign [] false
  | minus : Sign [0x2D] true

inductive Fraction : Text → Text → Prop
  | absent : Fraction [] []
  | point {ds : Text} : ds ≠ [] → AllDigits ds → Fraction (0x2E :: ds) ds

/-- The sign of an exponent, which may also be a plus. -/
inductive ExponentSign : Text → Bool → Prop
  | of {sign : Text} {negative : Bool} : Sign sign negative → ExponentSign sign negative
  | plus : ExponentSign [0x2B] false

inductive Exponent : Text → Option Int → Prop
  | absent : Exponent [] none
  | power {letter : CodePoint} {sign : Text} {negative : Bool} {ds : Text} :
      letter = 0x65 ∨ letter = 0x45 → ExponentSign sign negative → ds ≠ [] → AllDigits ds →
      Exponent (letter :: (sign ++ ds)) (some (signed negative (digitsValue ds)))

/-- The parts of a number literal. -/
inductive LiteralOf : Text → Literal → Prop
  | intro {sign whole point power fraction : Text} {negative : Bool} {exponent : Option Int} :
      Sign sign negative → IsWhole whole → Fraction point fraction → Exponent power exponent →
      LiteralOf (sign ++ (whole ++ (point ++ power))) ⟨negative, whole, fraction, exponent⟩

/-- A number literal and its number: exact for an integer, and the nearest floating point number
of a literal with a fraction or an exponent. -/
inductive Numeral : Text → Json → Prop
  | integer {t whole : Text} {negative : Bool} :
      LiteralOf t ⟨negative, whole, [], none⟩ → whole.length ≤ 4300 →
      Numeral t (.int (signed negative (digitsValue whole)))
  | float {t whole fraction : Text} {negative : Bool} {exponent : Option Int} {x : Binary64} :
      LiteralOf t ⟨negative, whole, fraction, exponent⟩ → ¬ (fraction = [] ∧ exponent = none) →
      x = Binary64.ofDecimal negative (digitsValue (whole ++ fraction))
        (exponent.getD 0 - fraction.length) →
      x.isFinite = true → Numeral t (.float x)

/-! ### Documents -/

/-- The members that an object keeps: each key once, at its first place, with its last value. -/
structure Keeps (pairs members : List (Text × Json)) : Prop where
  keys : members.map Prod.fst = (pairs.map Prod.fst).eraseDups
  last : ∀ m ∈ members, pairs.reverse.find? (·.1 == m.1) = some m

/-- What a stretch of text stands for. An element is a value with white space around it. -/
inductive Phrase where
  | value (d : Json)
  | element (d : Json)
  | elements (items : List Json)
  | member (m : Text × Json)
  | members (pairs : List (Text × Json))

inductive Denotes : Text → Phrase → Prop
  | nullWord : Denotes (Text.ofString "null") (.value .null)
  | trueWord : Denotes (Text.ofString "true") (.value (.bool true))
  | falseWord : Denotes (Text.ofString "false") (.value (.bool false))
  | number {t : Text} {d : Json} : Numeral t d → Denotes t (.value d)
  | string {s t : Text} : Quotes s t → Denotes s (.value (.text t))
  | emptyArray {w : Text} : Blank w → Denotes (0x5B :: (w ++ [0x5D])) (.value (.list []))
  | array {t : Text} {items : List Json} :
      Denotes t (.elements items) → Denotes (0x5B :: (t ++ [0x5D])) (.value (.list items))
  | emptyObject {w : Text} : Blank w → Denotes (0x7B :: (w ++ [0x7D])) (.value (.object []))
  | object {t : Text} {pairs members : List (Text × Json)} :
      Denotes t (.members pairs) → Keeps pairs members →
      Denotes (0x7B :: (t ++ [0x7D])) (.value (.object members))
  | element {v t w : Text} {d : Json} :
      Blank v → Denotes t (.value d) → Blank w → Denotes (v ++ (t ++ w)) (.element d)
  | lastElement {t : Text} {d : Json} : Denotes t (.element d) → Denotes t (.elements [d])
  | moreElements {t u : Text} {d : Json} {items : List Json} :
      Denotes t (.element d) → Denotes u (.elements items) →
      Denotes (t ++ 0x2C :: u) (.elements (d :: items))
  | member {v s w t key : Text} {d : Json} :
      Blank v → Quotes s key → Blank w → Denotes t (.element d) →
      Denotes (v ++ (s ++ (w ++ 0x3A :: t))) (.member (key, d))
  | lastMember {t : Text} {m : Text × Json} : Denotes t (.member m) → Denotes t (.members [m])
  | moreMembers {t u : Text} {m : Text × Json} {pairs : List (Text × Json)} :
      Denotes t (.member m) → Denotes u (.members pairs) →
      Denotes (t ++ 0x2C :: u) (.members (m :: pairs))

/-! ### White space in front -/

theorem Blank.nil : Blank [] := fun _ hc => absurd hc List.not_mem_nil

theorem Blank.append {v w : Text} (hv : Blank v) (hw : Blank w) : Blank (v ++ w) :=
  fun c hc => (List.mem_append.1 hc).elim (hv c) (hw c)

section Front

variable {w t : Text}

theorem Denotes.blank_element {d : Json} (hw : Blank w) (h : Denotes t (.element d)) :
    Denotes (w ++ t) (.element d) := by
  cases h with
  | element hv ht hw' =>
    rw [← List.append_assoc]
    exact .element (hw.append hv) ht hw'

theorem Denotes.blank_elements {items : List Json} (hw : Blank w) (h : Denotes t (.elements items)) :
    Denotes (w ++ t) (.elements items) := by
  cases h with
  | lastElement h => exact .lastElement (h.blank_element hw)
  | moreElements h hlater =>
    rw [← List.append_assoc]
    exact .moreElements (h.blank_element hw) hlater

theorem Denotes.blank_member {m : Text × Json} (hw : Blank w) (h : Denotes t (.member m)) :
    Denotes (w ++ t) (.member m) := by
  cases h with
  | member hv hs hw' ht =>
    rw [← List.append_assoc]
    exact .member (hw.append hv) hs hw' ht

theorem Denotes.blank_members {pairs : List (Text × Json)} (hw : Blank w)
    (h : Denotes t (.members pairs)) : Denotes (w ++ t) (.members pairs) := by
  cases h with
  | lastMember h => exact .lastMember (h.blank_member hw)
  | moreMembers h hlater =>
    rw [← List.append_assoc]
    exact .moreMembers (h.blank_member hw) hlater

end Front

/-! ### Members -/

/-- A key that is put again has its new value only. -/
theorem mem_putMember_of_nodup {members : List (Text × Json)} {key : Text} {value : Json}
    (h : (members.map Prod.fst).Nodup) {m : Text × Json} (hm : m ∈ putMember members key value) :
    m = (key, value) ∨ m ∈ members ∧ m.1 ≠ key := by
  induction members with
  | nil => exact .inl (List.mem_singleton.1 hm)
  | cons first rest ih =>
    obtain ⟨k, v⟩ := first
    obtain ⟨hnew, hrest⟩ := List.nodup_cons.1 h
    rw [putMember] at hm
    split at hm
    · rename_i hk
      obtain rfl | hm := List.mem_cons.1 hm
      · exact .inl (by rw [hk])
      · have hknown : m.1 ∈ rest.map Prod.fst := List.mem_map_of_mem hm
        have hkey : m.1 ≠ key := fun h => hnew (by rwa [hk, ← h])
        exact .inr ⟨List.mem_cons_of_mem _ hm, hkey⟩
    · rename_i hk
      obtain rfl | hm := List.mem_cons.1 hm
      · exact .inr ⟨List.mem_cons_self, hk⟩
      · obtain hnew | ⟨hm, hkey⟩ := ih hrest hm
        · exact .inl hnew
        · exact .inr ⟨List.mem_cons_of_mem _ hm, hkey⟩

theorem ofMembers_concat (pairs : List (Text × Json)) (key : Text) (value : Json) :
    ofMembers (pairs ++ [(key, value)]) = putMember (ofMembers pairs) key value := by
  simp [ofMembers]

theorem eraseDups_concat (keys : List Text) (key : Text) :
    (keys ++ [key]).eraseDups =
      if key ∈ keys.eraseDups then keys.eraseDups else keys.eraseDups ++ [key] := by
  by_cases hkey : key ∈ keys <;> simp [List.eraseDups_append, List.eraseDups_cons, List.removeAll, hkey]

theorem nodup_ofMembers (pairs : List (Text × Json)) :
    ((ofMembers pairs).map Prod.fst).Nodup := by
  induction pairs using List.reverseRecOn with
  | nil => exact .nil
  | append_singleton pairs pair ih =>
    rw [ofMembers_concat]
    exact nodup_putMember pair.1 pair.2 ih

/-- The members that were put one by one are those that the object keeps. -/
theorem keeps_ofMembers (pairs : List (Text × Json)) : Keeps pairs (ofMembers pairs) := by
  induction pairs using List.reverseRecOn with
  | nil => exact ⟨rfl, fun _ hm => absurd hm List.not_mem_nil⟩
  | append_singleton pairs pair ih =>
    obtain ⟨key, value⟩ := pair
    refine ⟨?_, fun m hm => ?_⟩
    · rw [ofMembers_concat, map_fst_putMember, ih.keys, List.map_append, List.map_singleton,
        eraseDups_concat]
    · rw [ofMembers_concat] at hm
      rw [List.reverse_concat]
      obtain rfl | ⟨hm, hkey⟩ := mem_putMember_of_nodup (nodup_ofMembers pairs) hm
      · simp
      · rw [List.find?_cons_of_neg (by simpa using hkey.symm)]
        exact ih.last m hm

/-- What is kept is determined: the keys in order, and the value of each. -/
theorem Keeps.unique {pairs members members' : List (Text × Json)} (h : Keeps pairs members)
    (h' : Keeps pairs members') : members = members' := by
  have hvalue {m m' : Text × Json} (hm : m ∈ members) (hm' : m' ∈ members') (hkey : m.1 = m'.1) :
      m = m' := by
    have hlast := h.last m hm
    rw [hkey, h'.last m' hm'] at hlast
    exact (Option.some.inj hlast).symm
  have hkeys : members.map Prod.fst = members'.map Prod.fst := h.keys.trans h'.keys.symm
  refine List.ext_getElem (by simpa using congrArg List.length hkeys) fun i hi hi' => ?_
  have hkey := List.getElem_of_eq hkeys (by simpa using hi)
  exact hvalue (List.getElem_mem hi) (List.getElem_mem hi') (by simpa using hkey)

end JsonLisp.Json.Grammar
