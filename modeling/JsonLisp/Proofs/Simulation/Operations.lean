import JsonLisp.Evaluation.Basic
import JsonLisp.Proofs.Pattern
import JsonLisp.Proofs.Simulation.Basic

/-!
# Patterns and comparisons on related values

Related arguments are bound to the same names, and no comparison tells related values apart.

## Main statements

* `Simulation.results_displayed`, `Simulation.results_encoded`: errors that show related values.
* `Simulation.results_bindPattern`: related bindings.
* `Simulation.same_eq`, `Simulation.compare_eq`: the same answer to every comparison.
-/

namespace JsonLisp

open List (Forall₂)

/-! ### Views -/

namespace Value.Similar

variable {val : Value → Value → Prop} {env : Environment → Environment → Prop} {a b : Value}

theorem isBool_eq (h : Similar val env a b) : a.isBool = b.isBool := by cases h <;> rfl

theorem isTrue_eq (h : Similar val env a b) : a.isTrue = b.isTrue := by cases h <;> rfl

theorem typeName_eq (h : Similar val env a b) : a.typeName = b.typeName := by cases h <;> rfl

theorem number?_eq (h : Similar val env a b) : a.number? = b.number? := by cases h <;> rfl

theorem numberOrBool?_eq (h : Similar val env a b) : a.numberOrBool? = b.numberOrBool? := by
  cases h <;> rfl

theorem isNotFinite_eq (h : Similar val env a b) :
    Operator.isNotFinite a = Operator.isNotFinite b := by cases h <;> rfl

theorem isRestMarker_eq (h : Similar val env a b) :
    Pattern.isRestMarker a = Pattern.isRestMarker b := by cases h <;> rfl

end Value.Similar

namespace Simulation

variable {W : Type} [Preorder W] {S : Simulation W} {w : W} {α : Type}

/-- An error that shows a value as it is displayed. -/
theorem results_displayed {R : α → α → Prop} {a b : Value} (h : S.Val w a b)
    (refusal : Text → Error) (hkind : ∀ shown, (refusal shown).kind.isForeseen = true) :
    S.Results R (do throw (refusal (← a.display))) (do throw (refusal (← b.display))) := by
  rw [← S.val_display h]
  cases hshown : a.display with
  | ok shown => exact results_foreseen (hkind shown)
  | error e => exact .error (S.possible_display h hshown)

/-- An error that shows the wire form of a value. -/
theorem results_encoded {R : α → α → Prop} {a b : Value} (h : S.Val w a b)
    (refusal : Text → Error) (hkind : ∀ shown, (refusal shown).kind.isForeseen = true) :
    S.Results R (do throw (refusal (← a.encode))) (do throw (refusal (← b.encode))) := by
  unfold Value.encode
  rw [← S.val_wire h]
  cases a.wire.write with
  | ok shown => exact results_foreseen (hkind shown)
  | error fault => exact results_foreseen rfl

/-! ### Patterns -/

/-- Lists of bindings with related values under the same names. -/
abbrev Frames (S : Simulation W) (w : W) : Frame → Frame → Prop :=
  Forall₂ (SameName (S.Val w))

theorem results_bindRest {names names' args args' : List Value}
    (hnames : Forall₂ (S.Val w) names names') (hargs : Forall₂ (S.Val w) args args') :
    S.Results (S.Frames w) (Pattern.bindRest names args) (Pattern.bindRest names' args') := by
  cases hnames with
  | nil => exact results_foreseen rfl
  | @cons name name' more more' hname hmore =>
    cases hmore with
    | cons => cases S.val_similar hname <;> exact results_foreseen rfl
    | nil =>
      cases S.val_similar hname with
      | text t => exact .ok (.cons ⟨rfl, S.val_list hargs⟩ .nil)
      | null | bool | int | float | builtin | list | map | closure =>
        exact results_displayed hname .restNotName fun _ => rfl

theorem results_missing {params params' : List Value} (h : Forall₂ (S.Val w) params params') :
    S.Results (S.Frames w) (Pattern.missing params) (Pattern.missing params') := by
  unfold Pattern.missing
  rw [h.length_eq]
  exact results_displayed (S.val_list h) (.missingArguments params'.length) fun _ => rfl

theorem results_notDestructurable {received received' : Value} {pattern pattern' : List Value}
    (hreceived : S.Val w received received') (hpattern : Forall₂ (S.Val w) pattern pattern') :
    S.Results (S.Frames w) (Pattern.notDestructurable received pattern)
      (Pattern.notDestructurable received' pattern') := by
  unfold Pattern.notDestructurable
  rw [← S.val_display hreceived]
  cases hshown : received.display with
  | ok shown => exact results_displayed (S.val_list hpattern) (.notDestructurable shown) fun _ => rfl
  | error e => exact .error (S.possible_display hreceived hshown)

/-- Related bindings of one parameter for related arguments. -/
def BindsOne (S : Simulation W) (w : W) (p : Value) : Prop :=
  ∀ {p' a a' : Value}, S.Val w p p' → S.Val w a a' →
    S.Results (S.Frames w) (Pattern.bindOne p a) (Pattern.bindOne p' a')

theorem results_bindList {ps ps' args args' : List Value} (hps : ∀ p ∈ ps, S.BindsOne w p)
    (hparams : Forall₂ (S.Val w) ps ps') (hargs : Forall₂ (S.Val w) args args') :
    S.Results (S.Frames w) (Pattern.bind ps args) (Pattern.bind ps' args') := by
  induction hparams generalizing args args' with
  | nil =>
    cases hargs with
    | nil => exact .ok .nil
    | cons harg hrest =>
      exact results_displayed (S.val_list (.cons harg hrest)) .surplusArguments fun _ => rfl
  | @cons p p' ps ps' hp hmore ih =>
    have hone : S.BindsOne w p := hps p List.mem_cons_self
    rw [Pattern.bind_cons, Pattern.bind_cons, ← (S.val_similar hp).isRestMarker_eq]
    split
    · exact results_bindRest hmore hargs
    · cases hargs with
      | cons harg hargs =>
        refine results_bind (hone hp harg) fun hframe => ?_
        have hrest := ih (fun q hq => hps q (List.mem_cons_of_mem p hq)) hargs
        exact results_bind hrest fun hlater => .ok (List.rel_append hframe hlater)
      | nil =>
        have hnone := hone hp (S.val_null w)
        cases S.val_similar hp with
        | text t => exact results_missing (.cons hp hmore)
        | null | bool | int | float | builtin | list | map | closure => exact hnone

theorem bindsOne (p : Value) : S.BindsOne w p := by
  intro p' a a' hp ha
  induction p generalizing p' a a' with
  | text name =>
    cases S.val_similar hp
    exact .ok (.cons ⟨rfl, ha⟩ .nil)
  | list pattern ih =>
    cases S.val_similar hp with
    | list hpattern =>
      cases S.val_similar ha with
      | list hitems => exact results_bindList ih hpattern hitems
      | null | bool | int | float | text | builtin | map | closure =>
        exact results_notDestructurable ha hpattern
  | null | bool | int | float | builtin | map | closure =>
    cases S.val_similar hp
    exact results_displayed hp .unsupportedParameter fun _ => rfl

theorem results_bindPattern {ps ps' args args' : List Value} (hps : Forall₂ (S.Val w) ps ps')
    (hargs : Forall₂ (S.Val w) args args') :
    S.Results (S.Frames w) (Pattern.bind ps args) (Pattern.bind ps' args') :=
  results_bindList (fun p _ => bindsOne p) hps hargs

/-! ### Comparisons -/

theorem equalAtoms_eq {numeric : Value → Option Number} {a a' b b' : Value}
    (ha : S.Val w a a') (hb : S.Val w b b') (hnuma : numeric a = numeric a')
    (hnumb : numeric b = numeric b') :
    Value.equalAtoms numeric a b = Value.equalAtoms numeric a' b' := by
  unfold Value.equalAtoms
  rw [hnuma, hnumb]
  split
  · rfl
  · rfl
  · rfl
  · cases S.val_similar ha with
    | closure =>
      cases S.val_similar hb with
      | closure =>
        rw [Bool.eq_iff_iff, beq_iff_eq, beq_iff_eq]
        exact S.val_identity ha hb
      | null | bool | int | float | text | builtin | list | map => rfl
    | null | bool | int | float | text | builtin | list | map =>
      cases S.val_similar hb <;> rfl

/-- An equality of values that are neither two lists nor two maps, and that is the same for related
values. -/
def RespectsVals (S : Simulation W) (w : W) (atoms : Value → Value → Bool) : Prop :=
  ∀ {a a' b b' : Value}, S.Val w a a' → S.Val w b b' → atoms a b = atoms a' b'

theorem itemsEqualBy_eq {atoms : Value → Value → Bool} {xs xs' ys ys' : List Value}
    (hitems : ∀ x ∈ xs, ∀ {x' y y' : Value}, S.Val w x x' → S.Val w y y' →
      Value.equalBy atoms x y = Value.equalBy atoms x' y')
    (hxs : Forall₂ (S.Val w) xs xs') (hys : Forall₂ (S.Val w) ys ys') :
    Value.itemsEqualBy atoms xs ys = Value.itemsEqualBy atoms xs' ys' := by
  induction hxs generalizing ys ys' with
  | nil => cases hys <;> rfl
  | @cons x x' xs xs' hx hxs ih =>
    cases hys with
    | nil => rfl
    | cons hy hys =>
      have hrest := ih (fun z hz => hitems z (List.mem_cons_of_mem x hz)) hys
      rw [Value.itemsEqualBy, Value.itemsEqualBy, hitems x List.mem_cons_self hx hy, hrest]

theorem entriesEqualBy_eq {atoms : Value → Value → Bool} {es es' fs fs' : List (Text × Value)}
    (hentries : ∀ e ∈ es, ∀ {x' y y' : Value}, S.Val w e.2 x' → S.Val w y y' →
      Value.equalBy atoms e.2 y = Value.equalBy atoms x' y')
    (hes : Forall₂ (SameName (S.Val w)) es es') (hfs : Forall₂ (SameName (S.Val w)) fs fs') :
    Value.entriesEqualBy atoms es fs = Value.entriesEqualBy atoms es' fs' := by
  induction hes with
  | nil => rfl
  | @cons e e' es es' he hes ih =>
    have hrest := ih fun f hf => hentries f (List.mem_cons_of_mem e hf)
    obtain ⟨key, x⟩ := e
    obtain ⟨key', x'⟩ := e'
    obtain ⟨rfl, hx⟩ : key = key' ∧ S.Val w x x' := he
    have hunder := valueUnder?_rel hfs key
    rw [Value.entriesEqualBy, Value.entriesEqualBy, hrest]
    generalize valueUnder? key fs = under at hunder
    generalize valueUnder? key fs' = under' at hunder
    cases hunder with
    | none => rfl
    | some hy => exact congrArg (· && _) (hentries (key, x) List.mem_cons_self hx hy)

theorem hasKeysOf_eq {es es' fs fs' : List (Text × Value)}
    (hes : Forall₂ (SameName (S.Val w)) es es') (hfs : Forall₂ (SameName (S.Val w)) fs fs') :
    Value.hasKeysOf es fs = Value.hasKeysOf es' fs' := by
  have hkeys (es fs : List (Text × Value)) : Value.hasKeysOf es fs =
      (fs.map Prod.fst).all fun key => (es.map Prod.fst).any fun other => other == key := by
    simp [Value.hasKeysOf, Function.comp_def]
  rw [hkeys, hkeys, keys_eq hes, keys_eq hfs]

theorem equalBy_eq {atoms : Value → Value → Bool} (hatoms : S.RespectsVals w atoms)
    {a a' b b' : Value} (ha : S.Val w a a') (hb : S.Val w b b') :
    Value.equalBy atoms a b = Value.equalBy atoms a' b' := by
  induction a generalizing a' b b' with
  | list xs ih =>
    cases S.val_similar ha with
    | list hxs =>
      cases S.val_similar hb with
      | list hys => exact itemsEqualBy_eq ih hxs hys
      | null | bool | int | float | text | builtin | map | closure => exact hatoms ha hb
  | map es ih =>
    cases S.val_similar ha with
    | map hes =>
      cases S.val_similar hb with
      | map hfs =>
        rw [Value.equalBy, Value.equalBy, hasKeysOf_eq hes hfs, entriesEqualBy_eq ih hes hfs]
      | null | bool | int | float | text | builtin | list | closure => exact hatoms ha hb
  | null | bool | int | float | text | builtin | closure =>
    cases S.val_similar ha
    cases S.val_similar hb <;> exact hatoms ha hb

/-- The equality of the language does not tell related values apart. -/
theorem same_eq {a a' b b' : Value} (ha : S.Val w a a') (hb : S.Val w b b') :
    a.same b = a'.same b' :=
  equalBy_eq (fun ha hb => equalAtoms_eq ha hb (S.val_similar ha).number?_eq
    (S.val_similar hb).number?_eq) ha hb

theorem alike_eq {a a' b b' : Value} (ha : S.Val w a a') (hb : S.Val w b b') :
    a.alike b = a'.alike b' := by
  refine equalBy_eq (fun {a a' b b'} ha hb => ?_) ha hb
  have hatoms := equalAtoms_eq ha hb (S.val_similar ha).numberOrBool?_eq
    (S.val_similar hb).numberOrBool?_eq
  cases S.val_similar ha with
  | float x =>
    cases x with
    | nan p =>
      cases S.val_similar hb with
      | float => rfl
      | null | bool | int | text | builtin | list | map | closure => exact hatoms
    | infinity | finite => exact hatoms
  | null | bool | int | text | builtin | list | map | closure => exact hatoms

theorem compareAtoms_eq {a a' b b' : Value} (ha : S.Val w a a') (hb : S.Val w b b') :
    Value.compareAtoms a b = Value.compareAtoms a' b' := by
  unfold Value.compareAtoms
  rw [(S.val_similar ha).numberOrBool?_eq, (S.val_similar hb).numberOrBool?_eq,
    (S.val_similar ha).typeName_eq, (S.val_similar hb).typeName_eq]
  split
  · rfl
  · cases S.val_similar ha <;> cases S.val_similar hb <;> rfl

theorem compareItems_eq {xs xs' ys ys' : List Value}
    (hitems : ∀ x ∈ xs, ∀ {x' y y' : Value}, S.Val w x x' → S.Val w y y' →
      x.compare y = x'.compare y')
    (hxs : Forall₂ (S.Val w) xs xs') (hys : Forall₂ (S.Val w) ys ys') :
    Value.compareItems xs ys = Value.compareItems xs' ys' := by
  induction hxs generalizing ys ys' with
  | nil => cases hys <;> rfl
  | @cons x x' xs xs' hx hxs ih =>
    cases hys with
    | nil => rfl
    | cons hy hys =>
      have hrest := ih (fun z hz => hitems z (List.mem_cons_of_mem x hz)) hys
      rw [Value.compareItems, Value.compareItems, alike_eq hx hy, hrest,
        hitems x List.mem_cons_self hx hy]

theorem compare_eq {a a' b b' : Value} (ha : S.Val w a a') (hb : S.Val w b b') :
    a.compare b = a'.compare b' := by
  induction a generalizing a' b b' with
  | list xs ih =>
    cases S.val_similar ha with
    | list hxs =>
      cases S.val_similar hb with
      | list hys => exact compareItems_eq ih hxs hys
      | null | bool | int | float | text | builtin | map | closure => exact compareAtoms_eq ha hb
  | null | bool | int | float | text | builtin | map | closure =>
    cases S.val_similar ha
    cases S.val_similar hb <;> exact compareAtoms_eq ha hb

theorem holds_eq (r : Relation) {a a' b b' : Value} (ha : S.Val w a a') (hb : S.Val w b b') :
    r.holds a b = r.holds a' b' := by
  cases r <;> simp only [Relation.holds, same_eq ha hb, compare_eq ha hb]

theorem neighbours_eq (r : Relation) {xs xs' : List Value} (h : Forall₂ (S.Val w) xs xs') :
    Relation.neighbours r.holds xs = Relation.neighbours r.holds xs' := by
  induction h with
  | nil => rfl
  | cons hx hxs ih =>
    cases hxs with
    | nil => rfl
    | cons hy hys => rw [Relation.neighbours, Relation.neighbours, holds_eq r hx hy, ih]

theorem any_isBool_eq {xs xs' : List Value} (h : Forall₂ (S.Val w) xs xs') :
    xs.any Value.isBool = xs'.any Value.isBool := by
  induction h with
  | nil => rfl
  | cons hx _ ih => rw [List.any_cons, List.any_cons, (S.val_similar hx).isBool_eq, ih]

theorem results_reporting {R : α → α → Prop} (fault : OperationFault) {x y : Except Error α}
    (h : S.Results R x y) :
    S.Results R (x.mapError (.reporting fault)) (y.mapError (.reporting fault)) := by
  cases h with
  | ok hab => exact .ok hab
  | error he => exact .error (S.possible_reporting fault he)

theorem results_incomparable (r : Relation) {xs xs' : List Value}
    (h : Forall₂ (S.Val w) xs xs') :
    S.Results (S.Val w) (r.incomparable xs) (r.incomparable xs') :=
  results_encoded (S.val_list h) (.incomparable r.symbol) fun _ => rfl

theorem results_chain (r : Relation) {xs xs' : List Value} (h : Forall₂ (S.Val w) xs xs') :
    S.Results (S.Val w) (r.chain xs) (r.chain xs') := by
  unfold Relation.chain
  rw [h.length_eq, any_isBool_eq h, neighbours_eq r h]
  split
  · exact results_foreseen rfl
  · split
    · exact results_incomparable r h
    · split
      · exact .ok (S.val_bool w _)
      · exact results_reporting _ (results_incomparable r h)

end Simulation

end JsonLisp
