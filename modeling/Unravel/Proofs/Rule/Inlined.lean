import Unravel.Proofs.Rule.KnownNames
import Unravel.Proofs.Rule.Made
import Unravel.Proofs.Tree.Relabel

/-! What inlining puts in the place of a call: the returned expression of a known function, with
arguments for the parameters that it reads. -/

namespace Unravel

open Node

namespace Rule

def returned (result : Option Node) : Node := result.getD (.literal (.fresh none) .undefined)

inductive Expands (arguments : List (Option Node)) : Node → Node → Prop
  | mk {t u : Tag} {h : Head} {self body result : Option Node} {params : List (Option Node)}
      {name : Option String} {names : List String} :
    Node.statements body = .ok [.returnStatement u result] →
    (∀ c seat, (c, seat) ∈ (returned result).seated none →
      blocksInlining name names c seat = false) →
    Expands arguments (.mk t h [.one self, .many params, .one body])
      (substitute (bind names (arguments.filterMap id)) none (returned result).unmarked)

theorem singleReturn?_eq_some {fn : Node} {result : Option Node}
    (h : singleReturn? fn = .ok (some result)) :
    ∃ t hd s s' body u, fn = .mk t hd [s, s', .one body] ∧
      Node.statements body = .ok [.returnStatement u result] := by
  unfold singleReturn? at h
  obtain ⟨statements, hbody, hrest⟩ := bind_eq_ok.mp h
  unfold bodyOf at hbody
  split at hbody
  · split at hrest
    · cases hrest
      exact ⟨_, _, _, _, _, _, rfl, hbody⟩
    · cases hrest
  · cases hbody

theorem expands_of_expand {fn m : Node} {arguments : List (Option Node)}
    (h : expand fn arguments = .ok (some m)) : Expands arguments fn m := by
  unfold expand at h
  obtain ⟨result, hresult, hrest⟩ := bind_eq_ok.mp h
  cases result with
  | none => cases hrest
  | some result =>
    obtain ⟨t, hd, s, s', body, u, rfl, hbody⟩ := singleReturn?_eq_some hresult
    dsimp only [slots] at hrest
    split at hrest
    · rename_i self params _ hslots
      cases hslots
      obtain ⟨name, -, hrest⟩ := bind_eq_ok.mp hrest
      obtain ⟨names, -, hrest⟩ := bind_eq_ok.mp hrest
      have hinstance : instantiate? name names (returned result) (arguments.filterMap id) = some m :=
        Except.ok.inj hrest
      unfold instantiate? at hinstance
      dsimp only at hinstance
      split at hinstance
      · cases hinstance
      · rename_i hopen
        split at hinstance
        · cases hinstance
        · split at hinstance
          · cases hinstance
            simp only [List.any_eq_true, not_exists, not_and, Bool.not_eq_true] at hopen
            exact .mk hbody fun c seat hc => hopen (c, seat) hc
          · cases hinstance
    · cases hrest

theorem expands_of_inlineReturn {site : Site} {n : Node} {o : Outcome}
    (h : inlineReturn site n = .ok (some o)) :
    ∃ t callee arguments fn m, n = .callExpression t callee arguments ∧
      called? site n callee = some fn ∧ Expands arguments fn m ∧ o = .replace m := by
  unfold inlineReturn at h
  split at h
  · split at h
    · cases h
    · rename_i fn hcalled
      obtain ⟨m, hm, hrest⟩ := bind_eq_ok.mp h
      cases m with
      | none => cases hrest
      | some m =>
        cases hrest
        exact ⟨_, _, _, fn, m, rfl, hcalled, expands_of_expand hm, rfl⟩
  · cases h

/-! The function that is called is known: it stands in the tree or was recorded. -/

theorem every_function? {P : Node → Prop} {site : Site} {here fn : Node} {name : String}
    (h : site.function? here name = some fn) (htree : (site.trail.plug here).Every P)
    (hfacts : ∀ e ∈ site.facts.functions, e.2.Every P) : fn.Every P := by
  unfold Site.function? at h
  obtain ⟨recorded, hrecorded, rfl⟩ := Option.map_eq_some_iff.mp h
  have hold : recorded.Every P := by
    obtain ⟨e, he, rfl⟩ := Option.map_eq_some_iff.mp hrecorded
    exact hfacts e (List.mem_of_find?_eq_some he)
  cases hmark : recorded.mark with
  | none => exact hold
  | some mark =>
    simp only [Option.bind_some]
    split
    · cases henclosing : site.trail.enclosing? mark here with
      | none => exact hold
      | some fn => exact htree.below (Trail.enclosing_mem_walk henclosing).1
    · exact hold

theorem every_called {P : Node → Prop} {site : Site} {n callee fn : Node}
    (h : called? site n callee = some fn) (hcallee : callee ∈ n.walk)
    (htree : (site.trail.plug n).Every P) (hfacts : ∀ e ∈ site.facts.functions, e.2.Every P) :
    fn.Every P := by
  unfold called? at h
  split at h
  · cases h
    exact (Trail.every_of_plug _ htree).below hcallee
  · split at h
    · exact every_function? h htree hfacts
    · cases h
  · cases h

theorem mem_walk_of_argument {t : Tag} {callee a : Node} {arguments : List (Option Node)}
    (ha : some a ∈ arguments) : a ∈ (Node.callExpression t callee arguments).walk := by
  have hall : (Node.callExpression t callee arguments).Every
      (· ∈ (Node.callExpression t callee arguments).walk) := fun _ hc => hc
  obtain ⟨-, hbelow⟩ := every_mk.mp hall
  obtain ⟨-, hitems⟩ := everySlots_one.mp hbelow
  exact (everyItems_iff.mp (everySlots_many.mp hitems).1 a ha).self

/-! What substitution leaves: nodes of the expression and copies of the arguments. -/

theorem mem_of_get? {b : Binding} {name : String} {a : Node} (h : b.get? name = some a) :
    (name, a) ∈ b := by
  obtain ⟨⟨p, a'⟩, he, rfl⟩ := Option.map_eq_some_iff.mp h
  have hp : p = name := by simpa using List.find?_some he
  exact hp ▸ List.mem_reverse.mp (List.mem_of_find?_eq_some he)

theorem mem_bind {params : List String} {arguments : List Node} {p : String} {a : Node}
    (h : (p, a) ∈ bind params arguments) :
    p ∈ params ∧ (a ∈ arguments ∨ a = .literal (.fresh none) .undefined) := by
  induction params generalizing arguments with
  | nil => cases h
  | cons q qs ih =>
    cases arguments with
    | nil =>
      rcases List.mem_cons.mp h with heq | h
      · cases heq
        exact ⟨List.mem_cons_self .., .inr rfl⟩
      · obtain ⟨hp, ha⟩ := ih h
        exact ⟨List.mem_cons_of_mem _ hp, ha⟩
    | cons b bs =>
      rcases List.mem_cons.mp h with heq | h
      · cases heq
        exact ⟨List.mem_cons_self .., .inl (List.mem_cons_self ..)⟩
      · obtain ⟨hp, ha⟩ := ih h
        exact ⟨List.mem_cons_of_mem _ hp, ha.imp (List.mem_cons_of_mem _) id⟩

/-- An identifier stays or becomes a copy of its argument; any other node keeps its tag and head. -/
theorem substitute_cases (b : Binding) (seat : Option Seat) (n : Node) :
    (∃ name a, n.head = .identifier name ∧ isReference seat = true ∧ b.get? name = some a ∧
      substitute b seat n = a.unmarked) ∨
    ((∃ name, n.head = .identifier name) ∧ substitute b seat n = n) ∨
    (∃ t h ss, n = .mk t h ss ∧ substitute b seat n =
      .mk t h (substituteSlots b h h.kind.fields ss)) := by
  obtain ⟨t, h, ss⟩ := n
  by_cases hid : ∃ name, h = .identifier name
  · obtain ⟨name, rfl⟩ := hid
    rw [substitute]
    split
    · rename_i hread
      cases ha : b.get? name with
      | none => exact .inr (.inl ⟨⟨name, rfl⟩, rfl⟩)
      | some a => exact .inl ⟨name, a, rfl, hread, ha, rfl⟩
    · exact .inr (.inl ⟨⟨name, rfl⟩, rfl⟩)
  · refine .inr (.inr ⟨t, h, ss, rfl, ?_⟩)
    rw [substitute]
    exact fun name hname => hid ⟨name, hname⟩

def Binding.Carries (b : Binding) (P Q : Node → Prop) : Prop :=
  ∀ t h ss, P (.mk t h ss) → Q (.mk t h (substituteSlots b h h.kind.fields ss))

section
variable {P Q : Node → Prop} {b : Binding}

theorem substituteItems_eq (seat : Option Seat) (cs : List (Option Node)) :
    substituteItems b seat cs = cs.map (·.map (substitute b seat)) :=
  items_eq_map (substitute b seat) (substituteItems b seat) rfl (fun _ => rfl) (fun _ _ => rfl) cs

theorem substituteSlots_cons (h : Head) (fs : List Field) (s : Slot Node) (ss : List (Slot Node)) :
    substituteSlots b h fs (s :: ss) =
      s.view (substitute b (fs.head?.map (⟨h, ·⟩))) :: substituteSlots b h fs.tail ss := by
  match s with
  | .one none => rfl
  | .one (some c) => rfl
  | .many cs => rw [substituteSlots, substituteItems_eq, Slot.view]

theorem mem_childrenOf_substituteSlots {h : Head} {fs : List Field} {ss : List (Slot Node)} {c : Node}
    (hc : c ∈ childrenOf (substituteSlots b h fs ss)) :
    ∃ d ∈ childrenOf ss, ∃ seat, c = substitute b seat d := by
  have hrel : List.Forall₂ (Slot.Rel fun d c => ∃ seat, c = substitute b seat d) ss
      (substituteSlots b h fs ss) :=
    Slot.Rel.of_slots (fun _ => rfl) (substituteSlots_cons h) fs fun d _ field => ⟨_, rfl⟩
  exact Slot.Rel.exists_of_mem hrel hc

theorem every_substitute (hb : ∀ p a, (p, a) ∈ b → a.unmarked.Every Q)
    (hP : ∀ c, P c → Q c) (hslots : b.Carries P Q) (seat : Option Seat) (n : Node)
    (hn : n.Every P) : (substitute b seat n).Every Q := by
  induction n generalizing seat with
  | h t h ss ih =>
    rcases substitute_cases b seat (.mk t h ss) with ⟨name, a, -, -, ha, heq⟩ | ⟨-, heq⟩ |
      ⟨t', h', ss', hshape, heq⟩
    · rw [heq]
      exact hb name a (mem_of_get? ha)
    · rw [heq]
      exact hn.mono hP
    · cases hshape
      rw [heq]
      refine every_mk.mpr ⟨hslots t h ss hn.self, everySlots_iff.mpr fun c hc => ?_⟩
      obtain ⟨d, hd, seat', rfl⟩ := mem_childrenOf_substituteSlots hc
      exact ih d hd seat' (hn.child hd)

end

theorem exists_of_mem_seated_unmarked {n c : Node} {seat : Option Seat}
    (hc : (c, seat) ∈ n.unmarked.seated none) :
    ∃ d, (d, seat) ∈ n.seated none ∧ d.head = c.head := by
  have hpair : (c.head, seat) ∈ (n.unmarked.seated none).map fun p => (p.1.head, p.2) :=
    List.mem_map.mpr ⟨(c, seat), hc, rfl⟩
  rw [unmarked, heads_seated_relabel unmarking_keepsHeads] at hpair
  obtain ⟨⟨d, seat'⟩, hd, heq⟩ := List.mem_map.mp hpair
  obtain ⟨hhead, rfl⟩ := Prod.mk.inj heq
  exact ⟨d, hd, hhead⟩

namespace Expands

variable {arguments : List (Option Node)} {fn m : Node}

theorem return_mem_walk (t u : Tag) (h : Head) {self body result : Option Node}
    {params : List (Option Node)}
    (hbody : Node.statements body = .ok [.returnStatement u result]) :
    .returnStatement u result ∈ (Node.mk t h [.one self, .many params, .one body]).walk := by
  cases body with
  | none => cases hbody
  | some body =>
    have hstatement := walkItems_statements hbody
    have hmem : .returnStatement u result ∈ body.walk := hstatement (by simp [walkItems, walk])
    rw [walk, walkSlots_cons, walkSlots_cons (.many params)]
    simp [walkSlots, hmem]

theorem head_of_mem_walk (h : Expands arguments fn m) {c : Node} (hc : c ∈ m.walk) :
    c.mark = none ∧ (c.head = .literal .undefined ∨ (∃ d ∈ fn.walk, d.head = c.head) ∨
      ∃ a, some a ∈ arguments ∧ ∃ d ∈ a.walk, d.head = c.head) := by
  revert c
  change m.Every _
  cases h with
  | @mk t u hd self body result params name names hbody =>
    refine every_substitute (P := fun c => c.mark = none ∧ (c.head = .literal .undefined ∨
      ∃ d ∈ (Node.mk t hd [.one self, .many params, .one body]).walk, d.head = c.head)) ?_ ?_ ?_
      none _ ?_
    · rintro p a ha c hc
      obtain ⟨hmark, d, hd, heq⟩ := exists_of_mem_walk_unmarked hc
      rcases (mem_bind ha).2 with hmem | rfl
      · exact ⟨hmark, .inr (.inr ⟨a, by simpa using hmem, d, hd, heq⟩)⟩
      · cases List.mem_singleton.mp hd
        exact ⟨hmark, .inl heq.symm⟩
    · exact fun c ⟨hmark, heq⟩ => ⟨hmark, heq.imp id .inl⟩
    · exact fun t' h' ss ⟨hmark, heq⟩ => ⟨hmark, heq.imp id .inl⟩
    · intro c hc
      obtain ⟨hmark, d, hd, heq⟩ := exists_of_mem_walk_unmarked hc
      refine ⟨hmark, ?_⟩
      cases result with
      | none =>
        cases List.mem_singleton.mp hd
        exact .inl heq.symm
      | some e =>
        have hreturn : d ∈ (Node.returnStatement u (some e)).walk := by
          simp [walk, walkSlots, show d ∈ e.walk from hd]
        exact .inr ⟨d, walk_subset_walk _ (return_mem_walk t u _ hbody) hreturn, heq⟩

end Expands

end Rule
end Unravel
