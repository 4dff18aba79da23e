import Unravel.Proofs.Grammar.Role
import Unravel.Rule.Basic

/-! Lexical declarations and their blocks. A `let` or `const` stands in a list of statements, not in
the place of a lone statement, and no list declares a name twice. -/

namespace Unravel

open Node

def Head.isLexical : Head → Bool
  | .variableDeclaration kind => kind == "let" || kind == "const"
  | _ => false

theorem declaresLexical_eq (statements : List Node) :
    declaresLexical statements = statements.any (·.head.isLexical) := rfl

namespace Node

def lexicalNames (n : Node) : List String :=
  if n.head.isLexical then (childrenOf n.slots).filterMap declaredName? else []

end Node

/-- A lone statement is no lexical declaration, and a list declares each name once. -/
def Slot.Separate : Slot Node → Prop
  | .one c => ∀ m ∈ c, m.head.isLexical = false
  | .many cs => ((cs.filterMap id).flatMap lexicalNames).Nodup

instance : DecidablePred Slot.Separate
  | .one none => .isTrue nofun
  | .one (some c) => decidable_of_iff (c.head.isLexical = false) (by simp [Slot.Separate])
  | .many cs => inferInstanceAs (Decidable ((cs.filterMap id).flatMap lexicalNames).Nodup)

namespace Node

/-- The statements of the node keep their lexical declarations apart. -/
def Separate (n : Node) : Prop :=
  List.Forall₂ (fun d s => d.role = .statement → s.Separate) n.head.demands n.slots

instance : DecidablePred Separate := fun n =>
  inferInstanceAs (Decidable (List.Forall₂ (fun d s => d.role = .statement → s.Separate)
    n.head.demands n.slots))

theorem lexicalNames_of_not {m : Node} (hm : m.head.isLexical = false) : m.lexicalNames = [] := by
  rw [lexicalNames, hm]
  rfl

abbrev look (n : Node) : Head × List String × Option String :=
  (n.head, n.lexicalNames, n.declaredName?)

variable {t t' : Tag} {h : Head} {ss ss' : List (Slot Node)}

theorem lexicalNames_congr
    (hview : ss.map (Slot.view declaredName?) = ss'.map (Slot.view declaredName?)) :
    (Node.mk t h ss).lexicalNames = (Node.mk t' h ss').lexicalNames := by
  have hnames : (childrenOf ss).filterMap declaredName? = (childrenOf ss').filterMap declaredName? :=
    filterMap_children_congr hview
  exact congrArg (fun names => if h.isLexical then names else []) hnames

theorem look_congr (hview : ss.map (Slot.view look) = ss'.map (Slot.view look)) :
    (Node.mk t h ss).look = (Node.mk t' h ss').look := by
  have hheads : ss.map Slot.heads = ss'.map Slot.heads := map_view_comp Prod.fst hview
  have hnames : ss.map (Slot.view declaredName?) = ss'.map (Slot.view declaredName?) :=
    map_view_comp (fun p : Head × List String × Option String => p.2.2) hview
  have hdeclared : (Node.mk t h ss).declaredName? = (Node.mk t' h ss').declaredName? :=
    declaredName?_congr (view_name?_of_heads hheads)
  have hlexical : (Node.mk t h ss).lexicalNames = (Node.mk t' h ss').lexicalNames :=
    lexicalNames_congr hnames
  unfold look
  rw [hdeclared, hlexical]
  rfl

theorem isView_look : IsView look := fun _ _ _ _ _ => look_congr

theorem separateSlot_congr {s s' : Slot Node} (hview : s.view look = s'.view look) (hs : s.Separate) :
    s'.Separate := by
  match s, s' with
  | .one c, .one c' =>
    intro m hm
    cases hm
    simp only [Slot.view, Slot.one.injEq, Option.map_some] at hview
    obtain ⟨n, rfl, hn⟩ := Option.map_eq_some_iff.mp hview
    have hhead : n.head = m.head := congrArg (·.1) hn
    rw [← hhead]
    exact hs n rfl
  | .many cs, .many cs' =>
    have hnames (cs : List (Option Node)) : (cs.filterMap id).flatMap lexicalNames =
        ((cs.map (·.map look)).filterMap id).flatMap (·.2.1) := by
      simp [List.flatMap_def, List.filterMap_map, List.map_filterMap, Function.comp_def]
    simp only [Slot.view, Slot.many.injEq] at hview
    simp only [Slot.Separate, hnames, ← hview]
    simpa only [Slot.Separate, hnames] using hs
  | .one _, .many _ => cases hview
  | .many _, .one _ => cases hview

theorem separate_congr (hview : ss.map (Slot.view look) = ss'.map (Slot.view look))
    (hn : (Node.mk t h ss).Separate) : (Node.mk t' h ss').Separate := by
  unfold Separate at hn ⊢
  simp only [head, slots] at hn ⊢
  generalize h.demands = ds at hn ⊢
  induction ss generalizing ss' ds with
  | nil =>
    cases List.map_eq_nil_iff.mp hview.symm
    exact hn
  | cons s ss ih =>
    obtain ⟨s', rest, rfl, hs, hrest⟩ := List.map_eq_cons_iff.mp hview.symm
    obtain _ | ⟨hslot, htail⟩ := hn
    exact .cons (fun hrole => separateSlot_congr hs.symm (hslot hrole)) (ih hrest.symm _ htail)

/-! New tags do not matter. -/

section
variable {τ : Type} {f : Relabel τ}

theorem separate_relabel (hf : f.KeepsHeads) : f.Carries Separate Separate := by
  rintro seat ⟨t, h, ss⟩ s hn
  have hhead : (f seat t h s).1.2 = h := hf seat t h s
  simp only [relabel, hhead]
  exact separate_congr (view_relabelSlots hf isView_look h _ _ ss).symm hn

end

end Node

/-! An exchange keeps the declarations around it apart if nothing lexical comes in. -/

namespace Frame

variable {f : Frame} {n : Node} {ns : List Node}

theorem look_plugAll (hf : f.Open) (hhead : f.head.isLexical = false) :
    (f.plug n).look = (f.plugAll ns).look := by
  have hdeclared : (f.plug n).declaredName? = (f.plugAll ns).declaredName? := by
    unfold declaredName?
    by_cases hkind : f.head = .variableDeclarator
    · rw [hf.leadingName?_eq (by rw [hkind]; rfl)]
      rfl
    · rw [if_neg (show (f.plug n).head ≠ _ from hkind),
        if_neg (show (f.plugAll ns).head ≠ _ from hkind)]
  have hold : (f.plug n).lexicalNames = [] := lexicalNames_of_not hhead
  have hnew : (f.plugAll ns).lexicalNames = [] := lexicalNames_of_not hhead
  unfold look
  rw [hdeclared, hold, hnew]
  rfl

theorem separate_plugAll (htakes : f.Takes ns) (hns : ∀ m ∈ ns, m.head.isLexical = false)
    (h : (f.plug n).Separate) : (f.plugAll ns).Separate := by
  obtain ⟨t, hd, before, hole, after⟩ := f
  refine forall₂_append_of_forall h fun d _ hslot hrole => ?_
  have hslot := hslot hrole
  cases hole with
  | single =>
    rcases htakes with hf | ⟨m, rfl⟩
    · cases hf
    · intro m' hm'
      cases hm'
      exact hns m (List.mem_singleton_self m)
  | item left right =>
    have hempty : ns.flatMap lexicalNames = [] :=
      List.flatMap_eq_nil_iff.mpr fun m hm => lexicalNames_of_not (hns m hm)
    have hold : ((left.reverse ++ some n :: right).filterMap id).flatMap lexicalNames =
        (left.reverse.filterMap id).flatMap lexicalNames ++
          (n.lexicalNames ++ (right.filterMap id).flatMap lexicalNames) := by simp
    have hnew : ((left.reverse ++ (ns.map some ++ right)).filterMap id).flatMap lexicalNames =
        (left.reverse.filterMap id).flatMap lexicalNames ++
          (right.filterMap id).flatMap lexicalNames := by
      simp [List.filterMap_map, hempty]
    change (List.flatMap _ _).Nodup at hslot ⊢
    rw [hold] at hslot
    rw [hnew]
    exact hslot.sublist ((List.append_sublist_append_left _).mpr (List.sublist_append_right _ _))

end Frame
end Unravel
