import JsonLisp.Evaluation.Basic
import JsonLisp.Proofs.Value.Encoding

/-!
# Refusals that show a value

Most refusals put the encoding of what they refuse into their message. If that encoding does not
exist, since a number in it has no text, the missing text takes the place of the cause, and the
refusal is an error of arithmetic.

## Main definitions

* `Error.Tells`: the kind of an error with the encoding of a value in its message.
* `Refused`: a result that is such an error.
* `Refuses`: a computation that fails in this way and changes nothing.

## Main results

* `refused_throw`: an error that is made from an encoding.
* `refuses_notAFunction`, `refused_applyMap`: calls of what is no function, and with what is no key.
* `refused_concatenate`, `refused_addLast`, `refused_addFirst`: the primitives that demand lists.
-/

namespace JsonLisp

open Value (HasNumeral)

variable {α : Type} {kind : ErrorKind} {shown : Value}

/-- The error is of this kind if the shown value has an encoding, and one of arithmetic if not. -/
structure Error.Tells (kind : ErrorKind) (shown : Value) (e : Error) : Prop where
  cause : shown.Everywhere HasNumeral → e.kind = kind
  numeral : ¬ shown.Everywhere HasNumeral → e.kind = .arithmetic

/-- The result is an error that tells its kind unless the shown value has no encoding. -/
def Refused (kind : ErrorKind) (shown : Value) (x : Except Error α) : Prop :=
  ∃ e, x = .error e ∧ e.Tells kind shown

/-- In every state the computation fails with such an error, and leaves the state as it was. -/
def Refuses (kind : ErrorKind) (shown : Value) (m : Run α) : Prop :=
  ∀ s, ∃ e, m s = .error e s ∧ e.Tells kind shown

/-- What fails or succeeds without a state leaves the state as it was. -/
theorem ofExcept_eq_ok_iff {x : Except Error α} {a : α} {s t : State} :
    Run.ofExcept x s = .ok a t ↔ x = .ok a ∧ t = s := by
  cases x with
  | ok b =>
    constructor
    · intro h
      cases h
      exact ⟨rfl, rfl⟩
    · rintro ⟨h, rfl⟩
      cases h
      rfl
  | error e => exact ⟨nofun, nofun⟩

theorem Refused.refuses {x : Except Error α} (h : Refused kind shown x) :
    Refuses kind shown (Run.ofExcept x) := by
  obtain ⟨e, rfl, he⟩ := h
  exact fun s => ⟨e, rfl, he⟩

/-- An error within the report of a fault is of the kind that it has without the report. -/
theorem Refused.reporting {x : Except Error α} (h : Refused kind shown x)
    (fault : OperationFault) : Refused kind shown (x.mapError (Error.reporting fault)) := by
  obtain ⟨e, rfl, he⟩ := h
  exact ⟨.reporting fault e, rfl, he.cause, he.numeral⟩

/-- Without an encoding of the shown value every failure is one of arithmetic. -/
theorem Refuses.kind_eq_arithmetic {m : Run α} (h : Refuses kind shown m)
    (hshown : ¬ shown.Everywhere HasNumeral) {s t : State} {e : Error} (he : m s = .error e t) :
    e.kind = .arithmetic := by
  obtain ⟨e', he', htells⟩ := h s
  rw [he'] at he
  cases he
  exact htells.numeral hshown

namespace Value

theorem exists_encode {v : Value} : (∃ t, v.encode = .ok t) ↔ v.Everywhere HasNumeral := by
  rw [← exists_write_wire]
  unfold encode
  cases v.wire.write with
  | ok t => exact ⟨fun _ => ⟨t, rfl⟩, fun _ => ⟨t, rfl⟩⟩
  | error fault => exact ⟨nofun, nofun⟩

theorem kind_of_encode {v : Value} {e : Error} (h : v.encode = .error e) :
    e.kind = .arithmetic := by
  unfold encode at h
  cases hwrite : v.wire.write with
  | ok t =>
    rw [hwrite] at h
    cases h
  | error fault =>
    rw [hwrite] at h
    cases h
    rfl

end Value

/-- A refusal whose message is made from the encoding of a value. -/
theorem refused_throw (wording : Text → Error) (hkind : ∀ t, (wording t).kind = kind)
    (shown : Value) :
    Refused kind shown (do throw (wording (← shown.encode)) : Except Error α) := by
  cases hencode : shown.encode with
  | ok t =>
    have hall : shown.Everywhere HasNumeral := Value.exists_encode.1 ⟨t, hencode⟩
    exact ⟨wording t, rfl, fun _ => hkind t, fun hnone => absurd hall hnone⟩
  | error e =>
    refine ⟨e, rfl, fun hall => ?_, fun _ => Value.kind_of_encode hencode⟩
    obtain ⟨t, ht⟩ := Value.exists_encode.2 hall
    rw [hencode] at ht
    cases ht

/-- The least positive integer without a text. -/
def Value.tooLong : Value := .int (10 ^ Text.maxNumeralDigits)

theorem Value.not_everywhere_tooLong : ¬ tooLong.Everywhere HasNumeral := by
  have hdigits (k : Nat) : ¬ (Nat.digits 10 (Int.natAbs (10 ^ k))).length ≤ k := by
    rw [Int.natAbs_pow, Nat.digits_length_le_iff (by decide)]
    exact lt_irrefl _
  rw [everywhere_atom rfl]
  exact hdigits Text.maxNumeralDigits

/-! ### Calls -/

/-- Maps, closures and references to primitives can be called. -/
def Value.isCallable : Value → Bool
  | .map _ | .closure _ _ _ | .builtin _ => true
  | _ => false

theorem refuses_notAFunction (engine : Engine) {f : Value} (hf : f.isCallable = false)
    (args : List Value) : Refuses .notAFunction f (applyValue engine f args) := by
  have hthrow : Refused .notAFunction f
      (do throw (.notAFunction (← f.encode)) : Except Error Value) :=
    refused_throw .notAFunction (fun _ => rfl) f
  have hcall : applyValue engine f args =
      Run.ofExcept (do throw (.notAFunction (← f.encode))) := by
    fun_cases applyValue engine f args with
    | case1 | case2 | case3 => cases hf
    | case4 =>
      cases f.encode with
      | ok t => rfl
      | error e => rfl
  rw [hcall]
  exact hthrow.refuses

theorem refused_applyMap (entries : List (Text × Value)) {key : Value}
    (hkey : key.text? = none) (rest : List Value) :
    Refused .invalidKeyType key (applyMap entries (key :: rest)) := by
  cases key with
  | text t => cases hkey
  | null | bool | int | float | list | map | closure | builtin =>
    exact refused_throw .invalidKey (fun _ => rfl) _

/-! ### Primitives on lists -/

namespace Primitive

/-- All demands for a list refuse with the same kind of error. -/
theorem refused_demandList (what : Demanded) (found : Value) :
    Refused .type found (demandList what found : Except Error α) :=
  refused_throw (.demanded what) (fun _ => rfl) found

theorem mapM_list?_eq_none {args : List Value} (h : ∃ v ∈ args, v.list? = none) :
    args.mapM Value.list? = none := by
  obtain ⟨v, hv, hnone⟩ := h
  induction args with
  | nil => cases hv
  | cons a rest ih =>
    rw [List.mapM_cons]
    obtain rfl | hv := List.mem_cons.1 hv
    · rw [hnone]
      rfl
    · rw [ih hv]
      cases a.list? <;> rfl

theorem refused_concatenate {args : List Value} (h : ∃ v ∈ args, v.list? = none) :
    Refused .type (.list args) (concatenate args) := by
  rw [concatenate, mapM_list?_eq_none h]
  exact refused_demandList _ _

theorem refused_addLast {first : Value} (hfirst : first.list? = none) (item : Value)
    (items : List Value) : Refused .type first (addLast (first :: item :: items)) := by
  cases first with
  | list xs => cases hfirst
  | null | bool | int | float | text | map | closure | builtin => exact refused_demandList _ _

theorem refused_addFirst (item : Value) {tail : Value} (htail : tail.list? = none) :
    Refused .type tail (addFirst [item, tail]) := by
  cases tail with
  | list xs => cases htail
  | null | bool | int | float | text | map | closure | builtin => exact refused_demandList _ _

end Primitive

end JsonLisp
