import JsonLisp.Proofs.Session.SingleForm
import JsonLisp.Proofs.Simulation.Printed

/-!
# Sequences of encoded values

Encodings with white space between them are read back in order and without a fault. A number ends
only before what cannot continue it, so some white space has to stand between two encodings; before
the first and behind the last there may be none. The reading of any text ends, since each document
takes at least one code point.

## Main definitions

* `Json.spaced`: texts in order, with white space around them.
* `Json.ReadsOn`: the reading of a text, one document after the other and without a bound.

## Main statements

* `Json.readsOn_iff`: the reading of a text has one course, which ends.
* `decodeAll_encodings`: the wire forms of encoded values.
-/

namespace JsonLisp

namespace Json

open Text (isBlank)
open Grammar

/-! ### Texts between white space -/

/-- White space, and then texts, each with the white space behind it. -/
def spaced (blank : Text) : List (Text × Text) → Text
  | [] => blank
  | (t, next) :: parts => blank ++ (t ++ spaced next parts)

/-- White space stands behind each text, and between two texts there is some. -/
structure Separated (parts : List (Text × Text)) : Prop where
  blank : ∀ p ∈ parts, ∀ c ∈ p.2, isBlank c = true
  between : ∀ p ∈ parts.dropLast, p.2 ≠ []

theorem Separated.tail {p : Text × Text} {parts : List (Text × Text)}
    (h : Separated (p :: parts)) : Separated parts := by
  refine ⟨fun q hq => h.blank q (List.mem_cons_of_mem p hq), fun q hq => h.between q ?_⟩
  cases parts with
  | nil => exact absurd hq List.not_mem_nil
  | cons => exact List.mem_cons_of_mem p hq

/-- What stands behind the first text does not continue a number. -/
theorem Separated.endsNumber {p : Text × Text} {parts : List (Text × Text)}
    (h : Separated (p :: parts)) : EndsNumber (spaced p.2 parts) := by
  have hblank := h.blank p List.mem_cons_self
  cases parts with
  | nil => exact endsNumber_of_blank hblank
  | cons q parts =>
    obtain ⟨c, w, hw⟩ := List.exists_cons_of_ne_nil (h.between p List.mem_cons_self)
    have hc : isBlank c = true := hblank c (by rw [hw]; exact List.mem_cons_self)
    exact StartsBlank.endsNumber ⟨c, w ++ (q.1 ++ spaced q.2 parts), by rw [spaced, hw]; rfl, hc⟩

/-! ### Sequences of documents -/

/-- The text of a sound document stands for it in the grammar. -/
theorem denotes_of_write {d : Json} (hd : d.Sound) {t : Text} (h : d.write = .ok t) :
    Denotes t (.value d) := by
  have hread : readFront (t ++ []) = .ok (d, []) :=
    readsBack hd h nofun (by rw [List.append_nil]; exact Nat.le_succ _)
  obtain ⟨s, hs, hdenotes⟩ := exists_denotes_of_readFront hread
  rw [List.append_cancel_right hs]
  exact hdenotes

theorem readFronts_spaced {blank : Text} {documents : List Json} {parts : List (Text × Text)}
    (hblank : ∀ c ∈ blank, isBlank c = true) (hparts : Separated parts)
    (h : List.Forall₂ (fun d p => Denotes p.1 (.value d)) documents parts) :
    readFronts (spaced blank parts).length (spaced blank parts) = (documents, none) := by
  induction h generalizing blank with
  | nil => exact readFronts_blankText hblank
  | @cons d p documents parts hd _ ih =>
    rw [spaced, readFronts_document hblank hd fun _ => hparts.endsNumber,
      ih (hparts.blank p List.mem_cons_self) hparts.tail]

/-! ### The end of reading -/

/-- The documents of a text one after the other, each behind white space, and what ends them: the
end of the text, or a fault. -/
inductive ReadsOn : Text → List Json → Option (Fault Nat) → Prop
  | finished {t : Text} : t.dropWhile isBlank = [] → ReadsOn t [] none
  | fault {t : Text} {fault : Fault Nat} : t.dropWhile isBlank ≠ [] →
      readFront (t.dropWhile isBlank) = .error fault → ReadsOn t [] (some fault)
  | document {t rest : Text} {d : Json} {documents : List Json} {fault : Option (Fault Nat)} :
      readFront (t.dropWhile isBlank) = .ok (d, rest) → ReadsOn rest documents fault →
      ReadsOn t (d :: documents) fault

/-- What is left behind a document is shorter than the text. -/
theorem length_lt_of_readFront_dropWhile {t rest : Text} {d : Json}
    (h : readFront (t.dropWhile isBlank) = .ok (d, rest)) : rest.length < t.length :=
  Nat.lt_of_lt_of_le (length_lt_of_readFront h) (length_dropWhile_le isBlank t)

theorem ReadsOn.length_le {t : Text} {documents : List Json} {fault : Option (Fault Nat)}
    (h : ReadsOn t documents fault) : documents.length ≤ t.length := by
  induction h with
  | finished | fault => exact Nat.zero_le _
  | document hread _ ih =>
    exact Nat.succ_le_of_lt (ih.trans_lt (length_lt_of_readFront_dropWhile hread))

theorem ReadsOn.readFronts_eq {t : Text} {documents : List Json} {fault : Option (Fault Nat)}
    (h : ReadsOn t documents fault) : readFronts t.length t = (documents, fault) := by
  induction h with
  | finished hnil => exact readFronts_blankText (List.dropWhile_eq_nil_iff.1 hnil)
  | fault hne hread => exact readFronts_fault rfl hne hread
  | document hread _ ih => rw [readFronts_cons rfl hread, ih]

theorem readsOn_readFronts (t : Text) :
    ReadsOn t (readFronts t.length t).1 (readFronts t.length t).2 := by
  -- The induction is on the length of the text, since each document is read from a shorter one.
  induction hn : t.length using Nat.strong_induction_on generalizing t with
  | _ n ih =>
    subst hn
    by_cases hnil : t.dropWhile isBlank = []
    · rw [readFronts_blankText (List.dropWhile_eq_nil_iff.1 hnil)]
      exact .finished hnil
    · cases hread : readFront (t.dropWhile isBlank) with
      | error fault =>
        rw [readFronts_fault rfl hnil hread]
        exact .fault hnil hread
      | ok read =>
        obtain ⟨d, rest⟩ := read
        rw [readFronts_cons rfl hread]
        exact .document hread (ih _ (length_lt_of_readFront_dropWhile hread) rest rfl)

/-- A text has one reading, and that is the one within the bound. -/
theorem readsOn_iff {t : Text} {documents : List Json} {fault : Option (Fault Nat)} :
    ReadsOn t documents fault ↔ readFronts t.length t = (documents, fault) := by
  refine ⟨ReadsOn.readFronts_eq, fun h => ?_⟩
  have hreads := readsOn_readFronts t
  rwa [h] at hreads

end Json

open Json (Separated ReadsOn spaced decodeAll)
open Value (DistinctKeys)

/-- The encoding of a value stands for its wire form. -/
theorem Value.denotes_of_encode {v : Value} {t : Text} (hkeys : v.Everywhere DistinctKeys)
    (h : v.encode = .ok t) : Json.Grammar.Denotes t (.value v.wire) := by
  have hwrite := Value.write_of_encode h
  exact Json.denotes_of_write (sound_wire ((exists_write_wire v).1 ⟨t, hwrite⟩) hkeys) hwrite

/-- Encodings of values, with white space between any two of them and with or without some at the
ends, are read as the wire forms of the values. And every text has a reading that ends, after no
more documents than the text has code points. -/
theorem decodeAll_encodings :
    (∀ (blank : Text) (values : List Value) (parts : List (Text × Text)),
      (∀ c ∈ blank, Text.isBlank c = true) → Separated parts →
      (∀ v ∈ values, v.Everywhere DistinctKeys) →
      List.Forall₂ (fun v p => v.encode = .ok p.1) values parts →
      decodeAll (spaced blank parts) = (values.map Value.wire, none)) ∧
    ∀ t : Text, (decodeAll t).1.length ≤ t.length ∧
      ∃ fault, (decodeAll t).2 = fault.map (Json.locate t) ∧
        ∀ documents fault', ReadsOn t documents fault' ↔
          documents = (decodeAll t).1 ∧ fault' = fault := by
  constructor
  · intro blank values parts hblank hparts hkeys hencode
    have hdocuments : List.Forall₂ (fun d p => Json.Grammar.Denotes p.1 (.value d))
        (values.map Value.wire) parts := by
      rw [List.forall₂_map_left_iff]
      refine ((List.forall₂_and_left values parts).2 ⟨hkeys, hencode⟩).imp ?_
      exact fun v p h => Value.denotes_of_encode h.1 h.2
    rw [Json.decodeAll_eq_ok_iff]
    exact Json.readFronts_spaced hblank hparts hdocuments
  · intro t
    refine ⟨(Json.readsOn_readFronts t).length_le, (Json.readFronts t.length t).2, rfl,
      fun documents fault' => ?_⟩
    rw [Json.readsOn_iff, Prod.ext_iff, eq_comm, @eq_comm _ fault']
    exact Iff.rfl

/-- Two integers, a text and a map, with white space of several kinds between them. -/
theorem decodeAll_encodings_integers :
    let values : List Value := [.int (-1), .int 20, .text [0x2003], .map [([97], .bool true)]]
    let parts : List (Text × Text) := [(Text.ofString "-1", [0x3000]),
      (Text.ofString "20", [10, 0xA0]), ([34, 0x2003, 34], [28]),
      (Text.ofString "\x7b\"a\":true\x7d", [])]
    (∀ c ∈ [9, 0x85], Text.isBlank c = true) ∧ Separated parts ∧
      (∀ v ∈ values, v.Everywhere DistinctKeys) ∧
      List.Forall₂ (fun v p => v.encode = .ok p.1) values parts ∧
      decodeAll (spaced [9, 0x85] parts) = (values.map Value.wire, none) := by
  intro values parts
  have hblank : ∀ c ∈ [9, 0x85], Text.isBlank c = true := by decide
  have hparts : Separated parts := ⟨by decide, by decide⟩
  have hwellFormed : ∀ v ∈ values, v.WellFormed := by simp [values]
  have hkeys : ∀ v ∈ values, v.Everywhere DistinctKeys :=
    fun v hv => (hwellFormed v hv).distinctKeys
  have hint {n : Int} (h : isLongNumeral n.natAbs = false) :
      (Value.int n).encode = .ok (Text.ofInt n) := by
    rw [Value.encode, Value.wire, Json.write, Json.writeInt, h]
    rfl
  have hencode : List.Forall₂ (fun v p => v.encode = .ok p.1) values parts :=
    .cons (hint (by decide +kernel)) (.cons (hint (by decide +kernel)) (.cons rfl (.cons rfl .nil)))
  exact ⟨hblank, hparts, hkeys, hencode,
    decodeAll_encodings.1 _ values parts hblank hparts hkeys hencode⟩

end JsonLisp
