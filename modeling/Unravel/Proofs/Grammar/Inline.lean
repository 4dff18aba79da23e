import Unravel.Proofs.Grammar.Keep
import Unravel.Proofs.Rule.Inlined

/-! Inlining keeps to the grammar. A parameter is exchanged for an expression only where it is read
and not written, and there the grammar asks for no more than an expression. -/

namespace Unravel

open Node

namespace Rule

def Binding.Open (b : Binding) (n : Node) (seat : Option Seat) : Prop :=
  ∀ name a, n.head = .identifier name → b.get? name = some a → isReference seat = true →
    isWriteTarget seat = false

section
variable {b : Binding}

mutual

theorem substitute_wellKinded (hb : ∀ p a, (p, a) ∈ b → a.kind.isExpression = true ∧ a.WellKinded)
    (seat : Option Seat) : (n : Node) → n.WellKinded →
    (∀ c s, (c, s) ∈ n.seated seat → b.Open c s) →
    (substitute b seat n).WellKinded ∧
      ∀ r : Role, r.Sits seat → r.admits n.kind = true → r.admits (substitute b seat n).kind = true
  | .mk t h ss, hn, hopen => by
    rcases substitute_cases b seat (.mk t h ss) with ⟨name, a, hid, hread, ha, heq⟩ | ⟨-, heq⟩ |
      ⟨t', h', ss', hshape, heq⟩
    · obtain ⟨hexpression, hwell⟩ := hb name a (mem_of_get? ha)
      have hwrite := hopen _ seat (List.mem_cons_self ..) name a hid ha hread
      have hkind : Node.kind (.mk t h ss) = .identifier := by rw [kind, hid, Head.kind]
      rw [heq]
      refine ⟨hwell.unmarked, fun r hr hadmits => ?_⟩
      rw [hkind] at hadmits
      rw [kind, head_unmarked]
      exact hr.admits_of_identifier hread hwrite hadmits hexpression
    · rw [heq]
      exact ⟨hn, fun r _ hadmits => hadmits⟩
    · cases hshape
      obtain ⟨hself, hbelow⟩ := every_mk.mp hn
      have hslots := substituteSlots_wellKinded hb h h.kind.fields ss h.demands hself hbelow
        (fun i d hd => Head.sits hd) fun c s hc => hopen c s (List.mem_cons_of_mem _ hc)
      rw [heq, WellKinded, every_mk]
      exact ⟨⟨hslots.1, hslots.2⟩, fun r _ hadmits => hadmits⟩

theorem substituteSlots_wellKinded
    (hb : ∀ p a, (p, a) ∈ b → a.kind.isExpression = true ∧ a.WellKinded) (h : Head)
    (fs : List Field) : (ss : List (Slot Node)) → (ds : List Demand) →
    List.Forall₂ (fun d s => d.admits s = true) ds ss → EverySlots Conforms ss →
    (∀ (i : Nat) (d : Demand), ds[i]? = some d → d.role.Sits (fs[i]?.map (⟨h, ·⟩))) →
    (∀ c s, (c, s) ∈ seatedSlots h fs ss → b.Open c s) →
    List.Forall₂ (fun d s => d.admits s = true) ds (substituteSlots b h fs ss) ∧
      EverySlots Conforms (substituteSlots b h fs ss)
  | [], ds, hss, _, _, _ => ⟨hss, everySlots_nil⟩
  | s :: ss, [], hss, _, _, _ => nomatch hss
  | s :: ss, d :: ds, .cons hslot hrest, hbelow, hsits, hopen => by
    have hseat : d.role.Sits (fs.head?.map (⟨h, ·⟩)) := by
      have hfirst := hsits 0 d rfl
      rwa [← List.head?_eq_getElem?] at hfirst
    have hlater : ∀ (i : Nat) (d : Demand), ds[i]? = some d → d.role.Sits (fs.tail[i]?.map (⟨h, ·⟩)) := by
      intro i d hd
      rw [List.getElem?_tail]
      exact hsits (i + 1) d hd
    match s with
    | .one none =>
      obtain ⟨hslots, hevery⟩ := substituteSlots_wellKinded hb h fs.tail ss ds hrest hbelow hlater
        hopen
      exact ⟨.cons hslot hslots, hevery⟩
    | .one (some c) =>
      obtain ⟨hc, hbelow⟩ := everySlots_one.mp hbelow
      obtain ⟨hslots, hevery⟩ := substituteSlots_wellKinded hb h fs.tail ss ds hrest hbelow hlater
        fun c s hc => hopen c s (List.mem_append_right _ hc)
      obtain ⟨hnew, hkind⟩ := substitute_wellKinded hb (fs.head?.map (⟨h, ·⟩)) c hc
        fun c s hc => hopen c s (List.mem_append_left _ hc)
      have hrole := hkind d.role hseat (Demand.role_of_admits_one hslot)
      exact ⟨.cons (Demand.admits_one_of_role hslot hrole) hslots, everySlots_one.mpr ⟨hnew, hevery⟩⟩
    | .many cs =>
      obtain ⟨hcs, hbelow⟩ := everySlots_many.mp hbelow
      obtain ⟨hslots, hevery⟩ := substituteSlots_wellKinded hb h fs.tail ss ds hrest hbelow hlater
        fun c s hc => hopen c s (List.mem_append_right _ hc)
      obtain ⟨hmany, hitems⟩ := substituteItems_wellKinded hb d (fs.head?.map (⟨h, ·⟩)) cs hseat hslot
        hcs fun c s hc => hopen c s (List.mem_append_left _ hc)
      exact ⟨.cons hmany hslots, everySlots_many.mpr ⟨hitems, hevery⟩⟩

theorem substituteItems_wellKinded
    (hb : ∀ p a, (p, a) ∈ b → a.kind.isExpression = true ∧ a.WellKinded) (d : Demand)
    (seat : Option Seat) : (cs : List (Option Node)) → d.role.Sits seat →
    d.admits (.many cs) = true → EveryItems Conforms cs →
    (∀ c s, (c, s) ∈ seatedItems seat cs → b.Open c s) →
    d.admits (.many (substituteItems b seat cs)) = true ∧
      EveryItems Conforms (substituteItems b seat cs)
  | [], _, hcs, _, _ => ⟨hcs, everyItems_nil⟩
  | none :: cs, hseat, hcs, hbelow, hopen => by
    rw [← List.singleton_append, Demand.admits_many_append, Bool.and_eq_true] at hcs
    obtain ⟨hmany, hitems⟩ := substituteItems_wellKinded hb d seat cs hseat hcs.2 hbelow hopen
    rw [substituteItems, ← List.singleton_append, Demand.admits_many_append, hcs.1, hmany]
    exact ⟨rfl, hitems⟩
  | some c :: cs, hseat, hcs, hbelow, hopen => by
    rw [← List.singleton_append, Demand.admits_many_append, Bool.and_eq_true] at hcs
    obtain ⟨hc, hbelow⟩ := everyItems_some.mp hbelow
    obtain ⟨hmany, hitems⟩ := substituteItems_wellKinded hb d seat cs hseat hcs.2 hbelow
      fun c s hc => hopen c s (List.mem_append_right _ hc)
    obtain ⟨hnew, hkind⟩ := substitute_wellKinded hb seat c hc
      fun c s hc => hopen c s (List.mem_append_left _ hc)
    have hrole := hkind d.role hseat (Demand.role_of_admits_many hcs.1 (List.mem_singleton.mpr rfl))
    have hone : d.admits (.many [some (substitute b seat c)]) = true :=
      Demand.admits_many_map hcs.1 fun m hm => List.mem_singleton.mp hm ▸ hrole
    rw [substituteItems, ← List.singleton_append, Demand.admits_many_append, hone, hmany]
    exact ⟨rfl, everyItems_some.mpr ⟨hnew, hitems⟩⟩

end

end

theorem wellKinded_literal (t : Tag) (v : Value) : (Node.literal t v).WellKinded := by
  rw [WellKinded, every_mk]
  exact ⟨.nil, everySlots_nil⟩

theorem bind_wellKinded {arguments : List (Option Node)} {names : List String} {t : Tag}
    {callee : Node} (hcall : (Node.callExpression t callee arguments).WellKinded) :
    ∀ p a, (p, a) ∈ bind names (arguments.filterMap id) →
      a.kind.isExpression = true ∧ a.WellKinded := by
  rintro p a ha
  rcases (mem_bind ha).2 with hmem | rfl
  · have harg : some a ∈ arguments := by simpa using hmem
    obtain _ | ⟨-, _ | ⟨hmany, -⟩⟩ := hcall.self
    exact ⟨Demand.role_of_admits_many hmany harg, hcall.below (mem_walk_of_argument harg)⟩
  · exact ⟨rfl, wellKinded_literal _ _⟩

theorem bind_open {arguments : List (Option Node)} {names : List String} {name : Option String}
    {e : Node} (hblocks : ∀ c seat, (c, seat) ∈ e.seated none →
      blocksInlining name names c seat = false) :
    ∀ c seat, (c, seat) ∈ e.unmarked.seated none →
      Binding.Open (bind names (arguments.filterMap id)) c seat := by
  intro c seat hc p a hid ha hread
  obtain ⟨d, hd, heq⟩ := exists_of_mem_seated_unmarked hc
  have hblock := hblocks d seat hd
  have hparam : p ∈ names := (mem_bind (mem_of_get? ha)).1
  simp only [blocksInlining, heq, hid, Bool.or_eq_false_iff, Bool.and_eq_false_iff] at hblock
  simpa [hparam, hread] using hblock.2

theorem returned_wellKinded {t u : Tag} {h : Head} {self body result : Option Node}
    {params : List (Option Node)} (hbody : Node.statements body = .ok [.returnStatement u result])
    (hfn : (Node.mk t h [.one self, .many params, .one body]).WellKinded) :
    (returned result).WellKinded ∧ (returned result).kind.isExpression = true := by
  cases result with
  | none => exact ⟨wellKinded_literal _ _, rfl⟩
  | some e =>
    have hreturn : (Node.returnStatement u (some e)).WellKinded :=
      hfn.below (Expands.return_mem_walk t u h hbody)
    obtain _ | ⟨hkind, -⟩ := hreturn.self
    exact ⟨(everySlots_one.mp (every_mk.mp hreturn).2).1, hkind⟩

theorem Expands.wellKinded {arguments : List (Option Node)} {fn m : Node} {t : Tag} {callee : Node}
    (h : Expands arguments fn m) (hfn : fn.WellKinded)
    (hcall : (Node.callExpression t callee arguments).WellKinded) :
    m.WellKinded ∧ m.kind.isExpression = true := by
  cases h with
  | @mk t' u hd self body result params name names hbody hblocks =>
    have hresult := returned_wellKinded hbody hfn
    obtain ⟨hwell, hrole⟩ := substitute_wellKinded (bind_wellKinded hcall) none
      (returned result).unmarked hresult.1.unmarked (bind_open hblocks)
    refine ⟨hwell, hrole .expression ⟨fun _ => nofun, fun _ => ⟨nofun, nofun⟩⟩ ?_⟩
    rw [kind, head_unmarked]
    exact hresult.2

theorem inlineReturn_wellKinded {site : Site} {n : Node} {o : Outcome}
    (h : inlineReturn site n = .ok (some o)) (htree : (site.trail.plug n).WellKinded)
    (hfacts : ∀ e ∈ site.facts.functions, e.2.WellKinded) :
    ∃ m, o = .replace m ∧ n.kind = .callExpression ∧ m.WellKinded ∧
      m.kind.isExpression = true := by
  obtain ⟨t, callee, arguments, fn, m, rfl, hcalled, hexpands, rfl⟩ := expands_of_inlineReturn h
  have hcallee : callee ∈ (Node.callExpression t callee arguments).walk := by
    simp [walk, walkSlots, self_mem_walk]
  have hfn := every_called hcalled hcallee htree hfacts
  obtain ⟨hwell, hkind⟩ := hexpands.wellKinded hfn (Trail.every_of_plug _ htree)
  exact ⟨m, rfl, rfl, hwell, hkind⟩

end Rule
end Unravel
