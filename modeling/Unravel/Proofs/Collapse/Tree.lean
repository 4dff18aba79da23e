import Unravel.Proofs.Collapse.Pattern

/-! Collapsing a whole tree: which functions are factories does not depend on what is collapsed inside
them, each of them is collapsed once, and nothing else is touched. -/

namespace Unravel

open Node

namespace Factory

theorem collapseAll_mk (t : Tag) (h : Head) (ss : List (Slot Node)) :
    collapseAll (.mk t h ss) = collapseHere (.mk t h (ss.map (Slot.view collapseAll))) := by
  rw [collapseAll, collapseSlots_eq]

theorem collapseAll_of_head {h : Head} (hh : h ≠ .functionDeclaration) (t : Tag) (ss : List (Slot Node)) :
    collapseAll (.mk t h ss) = .mk t h (ss.map (Slot.view collapseAll)) := by
  rw [collapseAll_mk]
  obtain heq | ⟨_, _, _, _, _, _, _, heq, -⟩ := collapseHere_cases (.mk t h (ss.map (Slot.view collapseAll)))
  · exact heq
  · exact absurd (congrArg head heq) hh

theorem exists_of_collapseAll {n : Node} {t : Tag} {h : Head} {ss : List (Slot Node)}
    (hh : h ≠ .functionDeclaration) (heq : collapseAll n = .mk t h ss) :
    ∃ ss', n = .mk t h ss' ∧ ss'.map (Slot.view collapseAll) = ss := by
  obtain ⟨t', h', ss'⟩ := n
  have hhead : h' = h := by
    have := head_collapseAll (.mk t' h' ss')
    rw [heq] at this
    exact this.symm
  subst hhead
  rw [collapseAll_of_head hh] at heq
  cases heq
  exact ⟨ss', rfl, rfl⟩

theorem exists_identifier_of_collapseAll {n : Node} {t : Tag} {name : String}
    (heq : collapseAll n = .identifier t name) : n = .identifier t name := by
  obtain ⟨ss, rfl, hss⟩ := exists_of_collapseAll (by simp) heq
  rw [List.map_eq_nil_iff.mp hss]

/-! The marks of a factory do not depend on what is collapsed below them. -/

variable {name array : String} {s : Option Node}

theorem reassigns_collapse : Reassigns name (s.map collapseAll) ↔ Reassigns name s := by
  constructor
  · rintro ⟨t, u, v, right, heq⟩
    obtain ⟨n, rfl, hn⟩ := Option.map_eq_some_iff.mp heq
    obtain ⟨ss, rfl, hss⟩ := exists_of_collapseAll (by simp) hn
    obtain ⟨e, rfl, he⟩ := map_view_eq_one hss
    obtain ⟨ss', rfl, hss'⟩ := exists_of_collapseAll (by simp) he
    obtain ⟨id, right', rfl, hid, -⟩ := map_view_eq_one_cons hss'
    cases exists_identifier_of_collapseAll hid
    exact ⟨t, u, v, right', rfl⟩
  · rintro ⟨t, u, v, right, rfl⟩
    refine ⟨t, u, v, right.map (Slot.view collapseAll), ?_⟩
    simp [collapseAll_of_head, Slot.view]

theorem name?_collapseAll (n : Node) : (collapseAll n).name? = n.name? :=
  name?_congr (head_collapseAll n)

theorem declaresArray_collapse : DeclaresArray array (s.map collapseAll) ↔ DeclaresArray array s := by
  constructor
  · rintro ⟨t, kind, u, id, v, elements, declarations, hid, heq⟩
    obtain ⟨n, rfl, hn⟩ := Option.map_eq_some_iff.mp heq
    obtain ⟨ss, rfl, hss⟩ := exists_of_collapseAll (by simp) hn
    obtain ⟨cs, rfl, hcs⟩ := map_view_eq_many hss
    obtain ⟨c, declarations', rfl, hc, -⟩ := List.map_eq_cons_iff.mp hcs
    obtain ⟨d, rfl, hd⟩ := Option.map_eq_some_iff.mp hc
    obtain ⟨ss', rfl, hss'⟩ := exists_of_collapseAll (by simp) hd
    obtain ⟨id', rest', rfl, rfl, hinit⟩ := map_view_eq_one_cons hss'
    obtain ⟨e, rfl, he⟩ := map_view_eq_one hinit
    obtain ⟨elements', rfl, -⟩ := exists_of_collapseAll (by simp) he
    rw [name?_collapseAll] at hid
    exact ⟨t, kind, u, id', v, elements', declarations', hid, rfl⟩
  · rintro ⟨t, kind, u, id, v, elements, declarations, hid, rfl⟩
    refine ⟨t, kind, u, collapseAll id, v, elements.map (Slot.view collapseAll),
      declarations.map (·.map collapseAll), (name?_collapseAll id).trans hid, ?_⟩
    simp [collapseAll_of_head, Slot.view]

theorem calls_collapse {e : Node} : Calls name (collapseAll e) ↔ Calls name e := by
  constructor
  · rintro ⟨t, u, arguments, he⟩
    obtain ⟨ss, rfl, hss⟩ := exists_of_collapseAll (by simp) he
    obtain ⟨id, arguments', rfl, hid, -⟩ := map_view_eq_one_cons hss
    cases exists_identifier_of_collapseAll hid
    exact ⟨t, u, arguments', rfl⟩
  · rintro ⟨t, u, arguments, rfl⟩
    refine ⟨t, u, arguments.map (Slot.view collapseAll), ?_⟩
    simp [collapseAll_of_head, Slot.view]

variable {body body' : List (Option Node)}

theorem Collapses.map (h : Collapses name body body') :
    Collapses name (body.map (·.map collapseAll)) (body'.map (·.map collapseAll)) := by
  obtain ⟨hfirst, hbefore, hassign, hcall⟩ := h
  rename_i array first assign before after t call
  have hbefore' : ∀ s ∈ before.map (·.map collapseAll), ¬ Reassigns name s := by
    intro s' hs' hreassigns
    obtain ⟨s, hs, rfl⟩ := List.mem_map.mp hs'
    exact hbefore s hs (reassigns_collapse.mp hreassigns)
  have hloc : loc (collapseAll call) = loc call := by
    obtain ⟨t, u, arguments, rfl⟩ := hcall
    rw [collapseAll_of_head (by simp)]
    rfl
  have hcollapses : Collapses name
      (first.map collapseAll :: before.map (·.map collapseAll) ++
        assign.map collapseAll :: after.map (·.map collapseAll) ++
        [some (.returnStatement t (some (collapseAll call)))])
      (first.map collapseAll :: before.map (·.map collapseAll) ++ after.map (·.map collapseAll) ++
        [some (.returnStatement t (some (.identifier (.fresh (loc (collapseAll call))) array)))]) :=
    .mk (declaresArray_collapse.mpr hfirst) hbefore' (reassigns_collapse.mpr hassign)
      (calls_collapse.mpr hcall)
  rw [hloc] at hcollapses
  simpa [collapseAll_of_head, Slot.view] using hcollapses

theorem exists_collapses (h : Collapses name (body.map (·.map collapseAll)) body') :
    ∃ body', Collapses name body body' := by
  generalize hmap : body.map (·.map collapseAll) = mapped at h
  obtain ⟨hfirst, hbefore, hassign, hcall⟩ := h
  obtain ⟨init, last, rfl, hinit, hlast⟩ := List.map_eq_append_iff.mp hmap
  obtain ⟨front, back, rfl, hfront, hback⟩ := List.map_eq_append_iff.mp hinit
  obtain ⟨first, before, rfl, rfl, rfl⟩ := List.map_eq_cons_iff.mp hfront
  obtain ⟨assign, after, rfl, rfl, rfl⟩ := List.map_eq_cons_iff.mp hback
  obtain ⟨s, rest, rfl, hs, hrest⟩ := List.map_eq_cons_iff.mp hlast
  cases List.map_eq_nil_iff.mp hrest
  obtain ⟨n, rfl, hn⟩ := Option.map_eq_some_iff.mp hs
  obtain ⟨ss, rfl, hss⟩ := exists_of_collapseAll (by simp) hn
  obtain ⟨call, rfl, rfl⟩ := map_view_eq_one hss
  refine ⟨_, .mk (declaresArray_collapse.mp hfirst) (fun s hs hreassigns => ?_)
    (reassigns_collapse.mp hassign) (calls_collapse.mp hcall)⟩
  exact hbefore _ (List.mem_map_of_mem hs) (reassigns_collapse.mpr hreassigns)

/-! Which nodes are factories, before and after. -/

def Plain (n : Node) : Prop := ∀ name body', ¬ Factors name n body'

theorem plain_or_factors (n : Node) : Plain n ∨ ∃ name body', Factors name n body' := by
  by_cases h : ∃ name body', Factors name n body'
  · exact .inr h
  · exact .inl fun name body' hn => h ⟨name, body', hn⟩

theorem collapseHere_of_plain {n : Node} (hn : Plain n) : collapseHere n = n := by
  unfold collapseHere
  split
  · split
    · rename_i name body' hcollapsed
      exact absurd (collapsed?_eq_some.mp hcollapsed) (hn name body')
    · rfl
  · rfl

theorem collapseHere_of_collapses (h : Collapses name body body') (t u v : Tag)
    (params : List (Option Node)) :
    collapseHere (.functionDeclaration t (some (.identifier u name)) params
      (some (.blockStatement v body))) =
    .functionDeclaration t (some (.identifier u name)) params (some (.blockStatement v body')) := by
  have hcollapsed := collapsed?_eq_some.mpr ⟨t, u, params, v, body, rfl, h⟩
  simp only [collapseHere, hcollapsed]

theorem plain_of_head {n : Node} (hn : n.head ≠ .functionDeclaration) : Plain n := by
  rintro name body' ⟨t, u, params, v, body, rfl, -⟩
  exact hn rfl

theorem Plain.map {t : Tag} {h : Head} {ss : List (Slot Node)} (hn : Plain (.mk t h ss)) :
    Plain (.mk t h (ss.map (Slot.view collapseAll))) := by
  rintro name body' ⟨t', u, params, v, body, heq, hcollapses⟩
  injection heq with ht hh hss
  subst ht hh
  obtain ⟨id, rest, rfl, hid, htail⟩ := map_view_eq_one_cons hss
  obtain ⟨slot, rest, rfl, hparams, hlast⟩ := List.map_eq_cons_iff.mp htail
  obtain ⟨params', rfl, -⟩ := Slot.view_eq_many hparams
  obtain ⟨block, rfl, hblock⟩ := map_view_eq_one hlast
  cases exists_identifier_of_collapseAll hid
  obtain ⟨slots, rfl, hslots⟩ := exists_of_collapseAll (by simp) hblock
  obtain ⟨body, rfl, rfl⟩ := map_view_eq_many hslots
  obtain ⟨body', hbody⟩ := exists_collapses hcollapses
  exact hn name body' ⟨t, u, params', v, body, rfl, hbody⟩

theorem collapseAll_of_plain {t : Tag} {h : Head} {ss : List (Slot Node)} (hn : Plain (.mk t h ss)) :
    collapseAll (.mk t h ss) = .mk t h (ss.map (Slot.view collapseAll)) := by
  rw [collapseAll_mk, collapseHere_of_plain hn.map]

theorem collapseAll_of_collapses (h : Collapses name body body') (t u v : Tag)
    (params : List (Option Node)) :
    collapseAll (.functionDeclaration t (some (.identifier u name)) params
      (some (.blockStatement v body))) =
    .functionDeclaration t (some (.identifier u name)) (params.map (·.map collapseAll))
      (some (.blockStatement v (body'.map (·.map collapseAll)))) := by
  have hid : collapseAll (.identifier u name) = .identifier u name := by
    simp [collapseAll_of_head]
  have hblock : collapseAll (.blockStatement v body) =
      .blockStatement v (body.map (·.map collapseAll)) := by
    simp [collapseAll_of_head, Slot.view]
  rw [collapseAll_mk, ← collapseHere_of_collapses h.map]
  simp only [List.map_cons, List.map_nil, Slot.view, Option.map_some, hid, hblock]

theorem Collapses.mem (h : Collapses name body body') {n : Node} (hn : some n ∈ body') :
    some n ∈ body ∨ ∃ t u array, n = .returnStatement t (some (.identifier u array)) := by
  obtain ⟨-, -, -, -⟩ := h
  rw [List.mem_append, List.mem_append] at hn
  obtain (hfront | hafter) | hreturn := hn
  · exact .inl (List.mem_append_left _ (List.mem_append_left _ hfront))
  · exact .inl (List.mem_append_left _ (List.mem_append_right _ (List.mem_cons_of_mem _ hafter)))
  · cases List.mem_singleton.mp hreturn
    exact .inr ⟨_, _, _, rfl⟩

theorem collapseAll_returning (t u : Tag) (array : String) :
    collapseAll (.returnStatement t (some (.identifier u array))) =
      .returnStatement t (some (.identifier u array)) := by
  simp [collapseAll_of_head, Slot.view]

theorem every_plain (n : Node) : (collapseAll n).Every Plain := by
  induction n with
  | h t hd ss ih =>
    obtain hn | ⟨name, body', t, u, params, v, body, heq, hcollapses⟩ := plain_or_factors (.mk t hd ss)
    · rw [collapseAll_of_plain hn]
      refine every_mk.mpr ⟨hn.map, everySlots_iff.mpr fun c hc => ?_⟩
      rw [childrenOf_map_view] at hc
      obtain ⟨d, hd, rfl⟩ := List.mem_map.mp hc
      exact ih d hd
    · cases heq
      have hblock := ih (.blockStatement v body) (by simp [childrenOf])
      rw [collapseAll_of_head (by simp)] at hblock
      have hitems := everyItems_iff.mp (everySlots_many.mp (every_mk.mp hblock).2).1
      rw [collapseAll_of_collapses hcollapses]
      simp only [every_mk, everySlots_one, everySlots_many, everySlots_nil, and_true]
      refine ⟨?_, plain_of_head (by simp [head]), ?_, plain_of_head (by simp [head]), ?_⟩
      · rintro name' body'' ⟨t', u', params', v', body₁, heq, hagain⟩
        cases heq
        exact hcollapses.map.once hagain
      · refine everyItems_iff.mpr fun m hm => ?_
        obtain ⟨c, hc, hcm⟩ := List.mem_map.mp hm
        obtain ⟨d, rfl, rfl⟩ := Option.map_eq_some_iff.mp hcm
        exact ih d (by simp [childrenOf, hc])
      · refine everyItems_iff.mpr fun m hm => ?_
        obtain ⟨c, hc, hcm⟩ := List.mem_map.mp hm
        obtain ⟨d, rfl, rfl⟩ := Option.map_eq_some_iff.mp hcm
        obtain hold | ⟨w, x, array, rfl⟩ := hcollapses.mem hc
        · exact hitems _ (List.mem_map_of_mem hold)
        · rw [collapseAll_returning]
          simp only [every_mk, everySlots_one, everySlots_nil, and_true]
          exact ⟨plain_of_head (by simp [head]), plain_of_head (by simp [head])⟩

/-! The tree, before and after. -/

mutual

/-- The second tree is the first one with its factories collapsed. Every other node keeps its place,
its scalars and its children, up to the factories below it. -/
inductive Collapsed : Node → Node → Prop
  | kept {t : Tag} {h : Head} {ss ss' : List (Slot Node)} : Plain (.mk t h ss) →
    CollapsedSlots ss ss' → Collapsed (.mk t h ss) (.mk t h ss')
  | factory {t u v : Tag} {name : String} {params params' body edited edited' : List (Option Node)} :
    Collapses name body edited → CollapsedItems params params' → CollapsedItems edited edited' →
    Collapsed
      (.functionDeclaration t (some (.identifier u name)) params (some (.blockStatement v body)))
      (.functionDeclaration t (some (.identifier u name)) params' (some (.blockStatement v edited')))

inductive CollapsedSlots : List (Slot Node) → List (Slot Node) → Prop
  | nil : CollapsedSlots [] []
  | none {ss ss' : List (Slot Node)} : CollapsedSlots ss ss' →
    CollapsedSlots (.one none :: ss) (.one none :: ss')
  | one {c c' : Node} {ss ss' : List (Slot Node)} : Collapsed c c' → CollapsedSlots ss ss' →
    CollapsedSlots (.one (some c) :: ss) (.one (some c') :: ss')
  | many {cs cs' : List (Option Node)} {ss ss' : List (Slot Node)} : CollapsedItems cs cs' →
    CollapsedSlots ss ss' → CollapsedSlots (.many cs :: ss) (.many cs' :: ss')

inductive CollapsedItems : List (Option Node) → List (Option Node) → Prop
  | nil : CollapsedItems [] []
  | hole {cs cs' : List (Option Node)} : CollapsedItems cs cs' → CollapsedItems (none :: cs) (none :: cs')
  | item {c c' : Node} {cs cs' : List (Option Node)} : Collapsed c c' → CollapsedItems cs cs' →
    CollapsedItems (some c :: cs) (some c' :: cs')

end

theorem collapsedItems_map {cs : List (Option Node)} (h : ∀ c, some c ∈ cs → Collapsed c (collapseAll c)) :
    CollapsedItems cs (cs.map (·.map collapseAll)) := by
  induction cs with
  | nil => exact .nil
  | cons c cs ih =>
    have hrest := ih fun c hc => h c (List.mem_cons_of_mem _ hc)
    cases c with
    | none => exact .hole hrest
    | some c => exact .item (h c (List.mem_cons_self ..)) hrest

theorem collapsedSlots_map {ss : List (Slot Node)} (h : ∀ c ∈ childrenOf ss, Collapsed c (collapseAll c)) :
    CollapsedSlots ss (ss.map (Slot.view collapseAll)) := by
  induction ss with
  | nil => exact .nil
  | cons s ss ih =>
    rw [childrenOf_cons, List.forall_mem_append] at h
    obtain ⟨hfirst, hrest⟩ := h
    match s with
    | .one none => exact .none (ih hrest)
    | .one (some c) => exact .one (hfirst c (by simp)) (ih hrest)
    | .many cs =>
      exact .many (collapsedItems_map fun c hc => hfirst c (Slot.mem_children_many.mpr hc)) (ih hrest)

theorem collapsed_of_items {cs : List (Option Node)} (h : CollapsedItems cs (cs.map (·.map collapseAll))) :
    ∀ c, some c ∈ cs → Collapsed c (collapseAll c) := by
  induction cs with
  | nil =>
    intro c hc
    cases hc
  | cons c cs ih =>
    intro d hd
    obtain heq | hlater := List.mem_cons.mp hd
    · cases heq
      cases h with
      | item hc _ => exact hc
    · cases h with
      | hole hrest => exact ih hrest d hlater
      | item _ hrest => exact ih hrest d hlater

/-- Every factory of a tree is collapsed, and nothing else changes. -/
theorem collapsed_collapseAll (n : Node) : Collapsed n (collapseAll n) := by
  induction n with
  | h t hd ss ih =>
    obtain hn | ⟨name, body', t, u, params, v, body, heq, hcollapses⟩ := plain_or_factors (.mk t hd ss)
    · rw [collapseAll_of_plain hn]
      exact .kept hn (collapsedSlots_map ih)
    · cases heq
      have hblock := ih (.blockStatement v body) (by simp [childrenOf])
      rw [collapseAll_of_head (by simp)] at hblock
      have hitems : CollapsedItems body (body.map (·.map collapseAll)) := by
        cases hblock with
        | kept _ hslots =>
          cases hslots with
          | many hitems _ => exact hitems
      rw [collapseAll_of_collapses hcollapses]
      refine .factory hcollapses (collapsedItems_map fun c hc => ?_) (collapsedItems_map fun c hc => ?_)
      · exact ih c (by simp [childrenOf, hc])
      · obtain hold | ⟨w, x, array, rfl⟩ := hcollapses.mem hc
        · exact collapsed_of_items hitems c hold
        · rw [collapseAll_returning]
          have hname : Collapsed (.identifier x array) (.identifier x array) :=
            .kept (plain_of_head (by simp [head])) .nil
          exact .kept (plain_of_head (by simp [head])) (.one hname .nil)

theorem collapseAll_of_every_plain (n : Node) : n.Every Plain → collapseAll n = n := by
  induction n with
  | h t hd ss ih =>
    intro hn
    rw [collapseAll_of_plain hn.self, map_view_self fun c hc => ih c hc (hn.child hc)]

/-! The whole call. -/

theorem forall₂_of_mapM {α β : Type} {f : α → Except Fault β} {as : List α} {bs : List β}
    (h : as.mapM f = .ok bs) : List.Forall₂ (fun a b => f a = .ok b) as bs := by
  induction as generalizing bs with
  | nil =>
    cases h
    exact .nil
  | cons a as ih =>
    rw [List.mapM_cons] at h
    obtain ⟨b, hb, h⟩ := bind_eq_ok.mp h
    obtain ⟨bs, hbs, h⟩ := bind_eq_ok.mp h
    cases h
    exact .cons hb (ih hbs)

theorem factors_iff {n : Node} {r : Option (String × List (Option Node))} (h : collapsed? n = .ok r)
    (name : String) : r.map (·.1) = some name ↔ ∃ body', Factors name n body' := by
  constructor
  · intro hr
    obtain ⟨⟨name', body'⟩, rfl, hname⟩ := Option.map_eq_some_iff.mp hr
    cases hname
    exact ⟨body', collapsed?_eq_some.mp h⟩
  · rintro ⟨body', hfactors⟩
    rw [collapsed?_eq_some.mpr hfactors] at h
    cases h
    rfl

theorem collapse_names {tree : Node} (htree : tree.WellKinded) :
    ∃ found, collapse tree = .ok (collapseAll tree, found.filterMap id) ∧
      List.Forall₂ (fun n r => ∀ name, r = some name ↔ ∃ body', Factors name n body') tree.walk
        found := by
  obtain ⟨results, hresults⟩ : Defined (tree.walk.mapM collapsed?) :=
    .mapM fun c hc => collapsed?_defined (htree.below hc)
  refine ⟨results.map (·.map (·.1)), ?_, ?_⟩
  · rw [collapse, hresults, List.filterMap_map]
    rfl
  · rw [List.forall₂_map_right_iff]
    exact (forall₂_of_mapM hresults).imp fun n r hr => factors_iff hr

theorem names_of_plain {ns : List Node} {found : List (Option String)}
    (hfound : List.Forall₂ (fun n r => ∀ name, r = some name ↔ ∃ body', Factors name n body') ns found)
    (hns : ∀ n ∈ ns, Plain n) : found.filterMap id = [] := by
  induction hfound with
  | nil => rfl
  | @cons n r ns found hfirst _ ih =>
    obtain ⟨hn, hns⟩ := List.forall_mem_cons.mp hns
    cases r with
    | none => exact ih hns
    | some name =>
      obtain ⟨body', hfactors⟩ := (hfirst name).mp rfl
      exact absurd hfactors (hn name body')

variable {tree : Node}

/-- The call collapses every factory of a well-kinded tree and names them in pre-order, those in the
statements that it deletes included. A second call finds none and changes nothing. -/
theorem collapse_once (htree : tree.WellKinded) :
    ∃ tree' found, collapse tree = .ok (tree', found.filterMap id) ∧
      List.Forall₂ (fun n r => ∀ name, r = some name ↔ ∃ body', Factors name n body') tree.walk found ∧
      Collapsed tree tree' ∧ collapse tree' = .ok (tree', []) := by
  obtain ⟨found, hcollapse, hfound⟩ := collapse_names htree
  obtain ⟨-, -, -, hfine⟩ :=
    collapse_wellKinded (q := fun _ => True) (fun _ => trivial) (htree.mono fun c hc => ⟨hc, trivial⟩)
  have htree' : (collapseAll tree).WellKinded := hfine.mono fun c hc => hc.1
  have hplain := every_plain tree
  obtain ⟨found', hagain, hfound'⟩ := collapse_names htree'
  refine ⟨collapseAll tree, found, hcollapse, hfound, collapsed_collapseAll tree, ?_⟩
  rw [hagain, names_of_plain hfound' hplain, collapseAll_of_every_plain _ hplain]

/-- `function f() { var a = []; <kept> f = <value>; return f(); }` -/
def factory (name : String) (kept : List (Option Node)) (value : Node) : Node :=
  let id (x : String) : Node := .identifier (.fresh none) x
  .functionDeclaration (.fresh none) (some (id name)) []
    (some (.blockStatement (.fresh none)
      (some (.variableDeclaration (.fresh none) "var" [some (.variableDeclarator (.fresh none)
        (some (id "a")) (some (.arrayExpression (.fresh none) [])))]) :: kept ++
      [some (.expressionStatement (.fresh none)
        (.assignmentExpression (.fresh none) "=" (id name) value)),
      some (.returnStatement (.fresh none)
        (some (.callExpression (.fresh none) (id name) [])))])))

def nestedFactories : Node :=
  let zero : Node := .literal (.fresh none) (.int 0)
  .program (.fresh none) [some (factory "f" [some (factory "h" [] zero)]
    (.functionExpression (.fresh none) none []
      (some (.blockStatement (.fresh none) [some (factory "g" [] zero)]))))]

theorem collapse_once_nestedFactories :
    (collapse nestedFactories).map (·.2) = .ok ["f", "h", "g"] ∧
    ∃ tree' found, collapse nestedFactories = .ok (tree', found.filterMap id) ∧
      List.Forall₂ (fun n r => ∀ name, r = some name ↔ ∃ body', Factors name n body')
        nestedFactories.walk found ∧
      Collapsed nestedFactories tree' ∧ collapse tree' = .ok (tree', []) :=
  ⟨rfl, collapse_once (by decide +kernel)⟩

end Factory
end Unravel
