import JsonLisp.Proofs.Json.RoundTrip
import JsonLisp.Proofs.Value.Wire
import JsonLisp.Value.Display
import Mathlib.Data.Nat.Digits.Lemmas

/-!
# Encoding and decoding values

A value has an encoding exactly if all its numbers have a text, wherever they stand: in lists and
maps, in the code of closures and in captured environments. What is decoded from the encoding is
the wire form of the value.

## Main definitions

* `Value.HasNumeral`: numbers with a text, and everything that is not a number.
* `Value.WireLaws`: how the wire form of a value is built from those of its parts.
* `Value.decode_encode`: the encoding of a value is decoded to its wire form.
-/

namespace JsonLisp

namespace Json

theorem writeItems_eq_mapM (items : List Json) : writeItems items = items.mapM write := by
  induction items with
  | nil => rfl
  | cons d rest ih => rw [writeItems, ih, List.mapM_cons]

/-- The text of a member: its key, a colon and its value. -/
def writeMember (m : Text × Json) : Except NumberFault Text :=
  return quote m.1 ++ 58 :: (← write m.2)

theorem writeMembers_eq_mapM (members : List (Text × Json)) :
    writeMembers members = members.mapM writeMember := by
  induction members with
  | nil => rfl
  | cons m rest ih => rw [writeMembers, ih, List.mapM_cons, writeMember, bind_assoc]; rfl

theorem exists_write_list {items : List Json} :
    (∃ t, (Json.list items).write = .ok t) ↔ ∀ d ∈ items, ∃ t, d.write = .ok t := by
  rw [← exists_mapM_eq_ok_iff, ← writeItems_eq_mapM, write]
  exact exists_bind_pure_eq_ok_iff

theorem exists_write_object {members : List (Text × Json)} :
    (∃ t, (Json.object members).write = .ok t) ↔ ∀ m ∈ members, ∃ t, m.2.write = .ok t := by
  have hmember (m : Text × Json) : (∃ t, writeMember m = .ok t) ↔ ∃ t, m.2.write = .ok t :=
    exists_bind_pure_eq_ok_iff
  simp only [← hmember]
  rw [← exists_mapM_eq_ok_iff, ← writeMembers_eq_mapM, write]
  exact exists_bind_pure_eq_ok_iff

theorem exists_write_text (t : Text) : ∃ u, (Json.text t).write = .ok u := ⟨quote t, rfl⟩

theorem exists_write_int {n : Int} :
    (∃ t, (Json.int n).write = .ok t) ↔ (Nat.digits 10 n.natAbs).length ≤ 4300 := by
  have hlong : isLongNumeral n.natAbs = false ↔ (Nat.digits 10 n.natAbs).length ≤ 4300 := by
    rw [isLongNumeral_iff, Text.length_ofNat_le_iff (by decide),
      ← Nat.digits_length_le_iff (by decide), Text.maxNumeralDigits]
  rw [← hlong, write, writeInt]
  cases isLongNumeral n.natAbs with
  | false => exact ⟨fun _ => rfl, fun _ => ⟨Text.ofInt n, rfl⟩⟩
  | true => exact ⟨nofun, nofun⟩

theorem exists_write_float {x : Binary64} :
    (∃ t, (Json.float x).write = .ok t) ↔ x.isFinite = true := by
  cases x with
  | nan payload => exact ⟨nofun, nofun⟩
  | infinity negative => exact ⟨nofun, nofun⟩
  | finite x => exact ⟨fun _ => rfl, fun _ => ⟨x.toText, rfl⟩⟩

end Json

namespace Value

/-- A finite number or an integer of at most 4300 digits, if the value is a number. -/
def HasNumeral : Value → Prop
  | .int n => (Nat.digits 10 n.natAbs).length ≤ 4300
  | .float x => x.isFinite = true
  | _ => True

/-- How documents stand for values. -/
structure WireLaws (wire : Value → Json) : Prop where
  null : wire .null = .null
  bool (b : Bool) : wire (.bool b) = .bool b
  int (n : Int) : wire (.int n) = .int n
  float (x : Binary64) : wire (.float x) = .float x
  text (t : Text) : wire (.text t) = .text t
  list (items : List Value) : wire (.list items) = .list (items.map wire)
  map (entries : List (Text × Value)) :
    wire (.map entries) = .object (entries.map fun e => (e.1, wire e.2))
  closure (identity : Nat) (form : List Value) (scope : Environment) :
    wire (.closure identity form scope) =
      .list [.text (Text.ofString "closure"), .list (form.map wire),
        .list (scope.items.map fun b => .list [.text b.1, wire b.2])]
  builtin (name : Text) :
    wire (.builtin name) = .list [.text (Text.ofString "builtin"), .text name]

theorem wireLaws : WireLaws wire where
  null := rfl
  bool _ := rfl
  int _ := rfl
  float _ := rfl
  text _ := rfl
  list items := by rw [wire, wireItems_eq_map]
  map entries := by rw [wire, wireEntries_eq_map]
  closure _ form scope := by
    rw [wire, wireItems_eq_map, wireScope_eq_map]
    rfl
  builtin _ := rfl

/-- Atoms have a text exactly if they are not numbers without one. -/
theorem exists_write_atom {v : Value} (hatom : v.isAtom = true)
    (h : (∃ t, v.wire.write = .ok t) ↔ v.HasNumeral) :
    (∃ t, v.wire.write = .ok t) ↔ v.Everywhere HasNumeral :=
  h.trans (everywhere_atom hatom).symm

theorem exists_write_wire (v : Value) : (∃ t, v.wire.write = .ok t) ↔ v.Everywhere HasNumeral := by
  induction v with
  | null => exact exists_write_atom rfl ⟨fun _ => trivial, fun _ => ⟨_, rfl⟩⟩
  | bool b => exact exists_write_atom rfl ⟨fun _ => trivial, fun _ => ⟨_, rfl⟩⟩
  | int n => exact exists_write_atom rfl Json.exists_write_int
  | float x => exact exists_write_atom rfl Json.exists_write_float
  | text t => exact exists_write_atom rfl ⟨fun _ => trivial, fun _ => ⟨_, rfl⟩⟩
  | list items ih =>
    have hparts : (list items).Everywhere HasNumeral ↔ ∀ v ∈ items, v.Everywhere HasNumeral :=
      everywhere_list.trans (and_iff_right trivial)
    rw [wireLaws.list, Json.exists_write_list, hparts, List.forall_mem_map]
    exact forall₂_congr ih
  | map entries ih =>
    have hparts : (map entries).Everywhere HasNumeral ↔
        ∀ e ∈ entries, e.2.Everywhere HasNumeral :=
      everywhere_map.trans (and_iff_right trivial)
    rw [wireLaws.map, Json.exists_write_object, hparts, List.forall_mem_map]
    exact forall₂_congr ih
  | closure identity form scope hform hscope =>
    have hparts : (closure identity form scope).Everywhere HasNumeral ↔
        (∀ v ∈ form, v.Everywhere HasNumeral) ∧ ∀ b ∈ scope.items, b.2.Everywhere HasNumeral :=
      everywhere_closure.trans (and_iff_right trivial)
    have hbinding (b : Text × Value) :
        (∃ t, (Json.list [.text b.1, b.2.wire]).write = .ok t) ↔ ∃ t, b.2.wire.write = .ok t := by
      simp [Json.exists_write_list, Json.exists_write_text]
    rw [wireLaws.closure, hparts, Json.exists_write_list]
    simp only [List.forall_mem_cons, Json.exists_write_text, Json.exists_write_list,
      List.forall_mem_map, hbinding, true_and, List.not_mem_nil, false_imp_iff, implies_true,
      and_true]
    exact and_congr (forall₂_congr hform) (forall₂_congr hscope)
  | builtin name =>
    refine exists_write_atom rfl ⟨fun _ => trivial, fun _ => ?_⟩
    simp [wireLaws.builtin, Json.exists_write_list, Json.exists_write_text]

/-- With numerals and distinct keys everywhere the wire form is sound. -/
theorem sound_wire {v : Value} (hnumerals : v.Everywhere HasNumeral)
    (hkeys : v.Everywhere DistinctKeys) : v.wire.Sound := by
  induction v with
  | null => exact .null
  | bool b => exact .bool b
  | int n => exact .int n
  | float x => exact .float hnumerals.self
  | text t => exact .text t
  | list items ih =>
    rw [wireLaws.list]
    refine .list (List.forall_mem_map.2 fun v hv => ?_)
    exact ih v hv ((everywhere_list.1 hnumerals).2 v hv) ((everywhere_list.1 hkeys).2 v hv)
  | map entries ih =>
    rw [wireLaws.map]
    refine .object ?_ (List.forall_mem_map.2 fun e he => ?_)
    · rw [List.map_map]
      exact hkeys.self
    · exact ih e he ((everywhere_map.1 hnumerals).2 e he) ((everywhere_map.1 hkeys).2 e he)
  | closure identity form scope hform hscope =>
    obtain ⟨-, hformNumerals, hscopeNumerals⟩ := everywhere_closure.1 hnumerals
    obtain ⟨-, hformKeys, hscopeKeys⟩ := everywhere_closure.1 hkeys
    have hcode : (Json.list (form.map wire)).Sound :=
      .list (List.forall_mem_map.2 fun v hv => hform v hv (hformNumerals v hv) (hformKeys v hv))
    have hbinding (b : Text × Value) (hb : b ∈ scope.items) :
        (Json.list [.text b.1, b.2.wire]).Sound :=
      .list (by simp [Json.Sound.text, hscope b hb (hscopeNumerals b hb) (hscopeKeys b hb)])
    have hcaptured : (Json.list (scope.items.map fun b => .list [.text b.1, b.2.wire])).Sound :=
      .list (List.forall_mem_map.2 hbinding)
    rw [wireLaws.closure]
    exact .list (by simp [Json.Sound.text, hcode, hcaptured])
  | builtin name =>
    rw [wireLaws.builtin]
    exact .list (by simp [Json.Sound.text])

/-- A value has an encoding exactly if each of its numbers has a text, and what is decoded from
the encoding is the wire form of the value. -/
theorem decode_encode {v : Value} (hkeys : v.Everywhere DistinctKeys) :
    WireLaws wire ∧ ((∃ t, v.encode = .ok t) ↔ v.Everywhere HasNumeral) ∧
      ∀ t, v.encode = .ok t → Json.decode t = .ok v.wire := by
  have hencode (t : Text) : v.encode = .ok t ↔ v.wire.write = .ok t := by
    unfold encode
    cases v.wire.write <;> simp [Except.mapError]
  simp only [hencode]
  have hexists := exists_write_wire v
  refine ⟨wireLaws, hexists, fun t ht => ?_⟩
  exact Json.decode_of_write (sound_wire (hexists.1 ⟨t, ht⟩) hkeys) ht

/-- A function that returns its argument. It has captured a text of a control character, a quote,
a backslash, a line separator, a code point past the basic plane and half of a pair, and a map in
whose values an integer and a floating point number are equal. -/
def capturing : Value :=
  .closure 3 [word "fn", .list [word "x"], word "x"]
    [[(Text.ofString "s", .text [1, 34, 92, 127, 0x2028, 0x1F600, 0xD83D])],
      [(Text.ofString "m", .map [(Text.ofString "int", .int 1),
        (Text.ofString "float", .float (.ofInt 1))])]]

theorem decode_encode_capturing : capturing.Everywhere DistinctKeys ∧
    ∃ t, capturing.encode = .ok t ∧ Json.decode t = .ok capturing.wire := by
  have hkeys : capturing.Everywhere DistinctKeys := by
    simp [capturing, word, everywhere_closure, everywhere_list, everywhere_map, DistinctKeys,
      Environment.items, Text.ofString]
    and_intros <;> exact (everywhere_atom rfl).2 trivial
  have hnumerals : capturing.Everywhere HasNumeral := by
    have hfinite : (Binary64.ofInt 1).isFinite = true := by decide
    simp [capturing, word, everywhere_closure, everywhere_list, everywhere_map, HasNumeral,
      Environment.items]
    and_intros
    · exact (everywhere_atom rfl).2 trivial
    · exact (everywhere_atom rfl).2 trivial
    · exact (everywhere_atom rfl).2 trivial
    · exact (everywhere_atom rfl).2 (by simp [HasNumeral])
    · exact (everywhere_atom rfl).2 hfinite
  obtain ⟨-, hexists, hdecode⟩ := decode_encode hkeys
  obtain ⟨t, ht⟩ := hexists.2 hnumerals
  exact ⟨hkeys, t, ht, hdecode t ht⟩

end Value

end JsonLisp
