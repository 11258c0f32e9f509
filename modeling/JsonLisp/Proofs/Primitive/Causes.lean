import JsonLisp.Proofs.Primitive.Arithmetic
import JsonLisp.Proofs.Primitive.Sorted

/-!
# What refused calls are refused for

Calls of what is no function, keys that are no texts and operands that do not fit are each reported
as an error of their own kind, if the values in the message have an encoding.

## Main results

* `refusals_tell_cause`
* `refusals_tell_cause_tooLong`: a number without a text conceals the cause.
-/

namespace JsonLisp

open Text (ofString)

namespace Relation

variable {r : Relation} {args : List Value}

/-- A boolean anywhere and an incomparable pair that is reached are refused alike. -/
theorem refused_chain (hr : r.isOrder = true) (hlength : 2 ≤ args.length)
    (h : (∃ a ∈ args, a.isBool = true) ∨ r.Meets args) :
    Refused .type (.list args) (r.chain args) := by
  by_cases hbool : ∃ a ∈ args, a.isBool = true
  · exact refused_chain_isBool hr hlength hbool
  · have hnobool : ∀ a ∈ args, a.isBool = false := fun a ha =>
      Bool.eq_false_of_not_eq_true fun hisBool => hbool ⟨a, ha, hisBool⟩
    exact refused_chain_of_meets hlength hnobool hr (h.resolve_left hbool)

end Relation

/-- A call of what is neither a map nor a function, a call of a map with a key that is not a text,
arithmetic with a boolean or with operands that do not go together, a comparison with a boolean or
with an incomparable pair, and a list operation without its list: each of them is refused for this
cause, in all states and without a change. Only a number without a text among the values in the
message takes the place of the cause. -/
theorem refusals_tell_cause (limits : Limits) :
    (∀ f args, f.isCallable = false →
      Refuses .notAFunction f (applyValue (engine limits) f args)) ∧
    (∀ entries key rest, key.text? = none →
      Refuses .invalidKeyType key (applyValue (engine limits) (.map entries) (key :: rest))) ∧
    (∀ (op : Operator) (args : List Value), (∃ a ∈ args, a.isBool = true) →
      Refuses .type (.list args) (applyValue (engine limits) (.builtin op.symbol) args)) ∧
    (∀ (op : Operator) (first : Value) (before : List Value) (acc next : Value)
      (after : List Value), before.foldlM op.combine first = .ok acc → ¬ op.Supports acc next →
      Refuses .type (.list (first :: before ++ next :: after))
        (applyValue (engine limits) (.builtin op.symbol) (first :: before ++ next :: after))) ∧
    (∀ (r : Relation) (args : List Value), r.isOrder = true → 2 ≤ args.length →
      (∃ a ∈ args, a.isBool = true) ∨ r.Meets args →
      Refuses .type (.list args) (applyValue (engine limits) (.builtin r.symbol) args)) ∧
    (∀ args : List Value, (∃ v ∈ args, v.list? = none) →
      Refuses .type (.list args)
        (applyValue (engine limits) (.builtin (ofString "append")) args)) ∧
    (∀ (first item : Value) (items : List Value), first.list? = none →
      Refuses .type first
        (applyValue (engine limits) (.builtin (ofString "conj")) (first :: item :: items))) ∧
    ∀ item tail : Value, tail.list? = none →
      Refuses .type tail
        (applyValue (engine limits) (.builtin (ofString "cons")) [item, tail]) := by
  simp only [Operator.applyValue_symbol, Relation.applyValue_symbol]
  exact ⟨fun f args hf => refuses_notAFunction (engine limits) hf args,
    fun entries key rest hkey => (refused_applyMap entries hkey rest).refuses,
    fun op args hbool => (Operator.refused_fold_isBool hbool).refuses,
    fun op first before acc next after hacc hnext =>
      (Operator.refused_fold_clash hacc hnext).refuses,
    fun r args hr hlength h => (Relation.refused_chain hr hlength h).refuses,
    fun args h => (Primitive.refused_concatenate h).refuses,
    fun first item items h => (Primitive.refused_addLast h item items).refuses,
    fun item tail h => (Primitive.refused_addFirst item h).refuses⟩

/-- A number as a function, a number as a key, a text behind a difference of numbers, a boolean in a
comparison and numbers in the place of lists. The first of the errors is looked at. -/
theorem refusals_tell_cause_numbers :
    let call := applyValue (engine ⟨9, 9⟩)
    let x : Value := .word "x"
    (∃ e, call (.int 3) [] .empty = .error e .empty ∧ e.kind = .notAFunction) ∧
      Refuses .invalidKeyType (.int 3) (call (.map []) [.int 3]) ∧
      Refuses .type (.list [.int 5, .bool true]) (call (.builtin Operator.div.symbol)
        [.int 5, .bool true]) ∧
      Refuses .type (.list [.int 5, .int 2, x]) (call (.builtin Operator.sub.symbol)
        [.int 5, .int 2, x]) ∧
      Refuses .type (.list [x, .int 3]) (call (.builtin Relation.less.symbol) [x, .int 3]) ∧
      Refuses .type (.list [.list [], .int 3]) (call (.builtin (ofString "append"))
        [.list [], .int 3]) ∧
      Refuses .type (.int 3) (call (.builtin (ofString "conj")) [.int 3, x]) ∧
      Refuses .type (.int 3) (call (.builtin (ofString "cons")) [x, .int 3]) := by
  intro call x
  obtain ⟨hcall, hkey, hbool, hclash, horder, happend, hconj, hcons⟩ := refusals_tell_cause ⟨9, 9⟩
  have hthree : (Value.int 3).Everywhere Value.HasNumeral :=
    (Value.everywhere_atom rfl).2 (by simp [Value.HasNumeral])
  have hx : ¬ Operator.sub.Supports (.int 3) x := by
    rintro ⟨⟩
    contradiction
  have hmeets : Relation.less.Meets [x, .int 3] :=
    ⟨[], x, .int 3, [], rfl, List.isChain_singleton x, _, _, rfl⟩
  obtain ⟨e, he, htells⟩ := hcall (.int 3) [] rfl .empty
  exact ⟨⟨e, he, htells.cause hthree⟩, hkey [] (.int 3) [] rfl,
    hbool .div [.int 5, .bool true] ⟨.bool true, by simp, rfl⟩,
    hclash .sub (.int 5) [.int 2] (.int 3) x [] rfl hx,
    horder .less [x, .int 3] rfl le_rfl (.inr hmeets),
    happend [.list [], .int 3] ⟨.int 3, by simp, rfl⟩, hconj (.int 3) x [] rfl,
    hcons x (.int 3) rfl⟩

/-- A call of a number without a text is not reported as a call of what is no function. -/
theorem refusals_tell_cause_tooLong :
    let call := applyValue (engine ⟨9, 9⟩) .tooLong []
    (∃ e, call .empty = .error e .empty ∧ e.kind = .arithmetic) ∧
      ¬ ∀ f args, f.isCallable = false →
        ∃ e, applyValue (engine ⟨9, 9⟩) f args .empty = .error e .empty ∧
          e.kind = .notAFunction := by
  intro call
  have hrefuses : Refuses .notAFunction .tooLong call := refuses_notAFunction (engine ⟨9, 9⟩) rfl []
  have hkind : ∀ e, call .empty = .error e .empty → e.kind = .arithmetic := fun e he =>
    hrefuses.kind_eq_arithmetic Value.not_everywhere_tooLong he
  refine ⟨?_, fun hall => ?_⟩
  · obtain ⟨e, he, -⟩ := hrefuses .empty
    exact ⟨e, he, hkind e he⟩
  · obtain ⟨e, he, hcause⟩ := hall .tooLong [] rfl
    rw [hkind e he] at hcause
    cases hcause

end JsonLisp
