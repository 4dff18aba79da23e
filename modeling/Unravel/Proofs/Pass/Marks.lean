import Unravel.Proofs.Pass.Keeps

/-! Marks tell what kind of node they were given to. New nodes get new marks, so what is recorded
under a mark is of the kind of the node that has it. -/

namespace Unravel

open Node

namespace Node

def Marked (next : Nat) (tree : Node) : Prop :=
  (∀ c ∈ tree.walk, ∀ m ∈ c.mark, m < next) ∧
    ∀ c ∈ tree.walk, ∀ d ∈ tree.walk, c.mark.isSome = true → c.mark = d.mark → c.kind = d.kind

/-- The mark of the node was given out, to a node of its kind. The kinds of all marks are a ghost:
no pass reads them. -/
def Keyed (κ : Nat → Kind) (next : Nat) (c : Node) : Prop :=
  ∀ m, c.mark = some m → m < next ∧ κ m = c.kind

theorem keyed_of_unmarked {κ : Nat → Kind} {next : Nat} {c : Node} (h : c.mark = none) :
    c.Keyed κ next := by
  intro m hm
  rw [h] at hm
  cases hm

theorem Marked.exists_key {next : Nat} {tree : Node} (h : tree.Marked next) :
    ∃ κ, tree.Every (Keyed κ next) := by
  refine ⟨fun m => ((tree.find? m).map kind).getD .program, fun c hc m hm => ⟨h.1 c hc m hm, ?_⟩⟩
  have hfound : (tree.find? m).isSome = true :=
    List.find?_isSome.mpr ⟨c, hc, by simp [hm]⟩
  obtain ⟨d, hd⟩ := Option.isSome_iff_exists.mp hfound
  have hmark : d.mark = some m := by simpa using List.find?_some hd
  dsimp only
  rw [hd]
  exact h.2 d (List.mem_of_find?_eq_some hd) c hc (by simp [hmark]) (by rw [hm, hmark])

theorem marked_of_key {next : Nat} {tree : Node} {κ : Nat → Kind}
    (h : tree.Every (Keyed κ next)) : tree.Marked next := by
  refine ⟨fun c hc m hm => (h c hc m hm).1, fun c hc d hd hsome hmark => ?_⟩
  obtain ⟨m, hm⟩ := Option.isSome_iff_exists.mp hsome
  exact (h c hc m hm).2.symm.trans (h d hd m (hmark ▸ hm)).2

end Node

structure Grown (κ : Nat → Kind) (next : Nat) (κ' : Nat → Kind) (next' : Nat) : Prop where
  le : next ≤ next'
  same : ∀ m < next, κ' m = κ m

namespace Grown

variable {κ κ' κ'' : Nat → Kind} {next next' next'' : Nat}

theorem refl (κ : Nat → Kind) (next : Nat) : Grown κ next κ next := ⟨Nat.le_refl _, fun _ _ => rfl⟩

theorem trans (h : Grown κ next κ' next') (h' : Grown κ' next' κ'' next'') :
    Grown κ next κ'' next'' :=
  ⟨Nat.le_trans h.le h'.le, fun m hm =>
    (h'.same m (Nat.lt_of_lt_of_le hm h.le)).trans (h.same m hm)⟩

theorem keyed (h : Grown κ next κ' next') {c : Node} (hc : c.Keyed κ next) : c.Keyed κ' next' := by
  intro m hm
  obtain ⟨hlt, hkind⟩ := hc m hm
  exact ⟨Nat.lt_of_lt_of_le hlt h.le, (h.same m hlt).trans hkind⟩

theorem every (h : Grown κ next κ' next') {n : Node} (hn : n.Every (Keyed κ next)) :
    n.Every (Keyed κ' next') := hn.mono fun _ hc => h.keyed hc

theorem everySlots (h : Grown κ next κ' next') {ss : List (Slot Node)}
    (hss : EverySlots (Keyed κ next) ss) : EverySlots (Keyed κ' next') ss :=
  fun c hc => h.keyed (hss c hc)

theorem everyItems (h : Grown κ next κ' next') {cs : List (Option Node)}
    (hcs : EveryItems (Keyed κ next) cs) : EveryItems (Keyed κ' next') cs :=
  fun c hc => h.keyed (hcs c hc)

theorem succ (κ : Nat → Kind) (next : Nat) (k : Kind) :
    Grown κ next (fun m => if m = next then k else κ m) (next + 1) :=
  ⟨Nat.le_succ _, fun _ hm => if_neg (Nat.ne_of_lt hm)⟩

end Grown

namespace Node

theorem keyed_numbering {κ : Nat → Kind} {next : Nat} {t : Tag} {h : Head} {ss : List (Slot Node)}
    (hn : (Node.mk t h ss).Keyed κ next) (seat : Option Seat) (ss' : List (Slot Node)) :
    ∃ κ', Grown κ next κ' (numbering seat t h next).2 ∧
      (Node.mk (numbering seat t h next).1.1 h ss').Keyed κ' (numbering seat t h next).2 := by
  obtain ⟨mark, loc⟩ := t
  cases mark with
  | some m => exact ⟨κ, .refl κ next, hn⟩
  | none =>
    refine ⟨_, .succ κ next h.kind, fun m hm => ?_⟩
    cases hm
    exact ⟨Nat.lt_succ_self next, if_pos rfl⟩

mutual

theorem keyed_relabel {κ : Nat → Kind} {next : Nat} (seat : Option Seat) : (n : Node) →
    n.Every (Keyed κ next) →
    ∃ κ', Grown κ next κ' (relabel numbering seat n next).2 ∧
      (relabel numbering seat n next).1.Every (Keyed κ' (relabel numbering seat n next).2)
  | .mk t h ss, hn => by
    obtain ⟨hself, hss⟩ := every_mk.mp hn
    have hhead : (numbering seat t h next).1.2 = h := numbering_keepsHeads seat t h next
    obtain ⟨κ₁, hgrown, hnew⟩ := keyed_numbering hself seat
      (relabelSlots numbering h h.kind.fields ss (numbering seat t h next).2).1
    obtain ⟨κ₂, hgrown', hslots⟩ := keyed_relabelSlots h h.kind.fields ss (hgrown.everySlots hss)
    refine ⟨κ₂, hgrown.trans hgrown', ?_⟩
    simp only [relabel, hhead, every_mk]
    exact ⟨hgrown'.keyed hnew, hslots⟩

theorem keyed_relabelSlots {κ : Nat → Kind} {next : Nat} (h : Head) (fs : List Field) :
    (ss : List (Slot Node)) → EverySlots (Keyed κ next) ss →
    ∃ κ', Grown κ next κ' (relabelSlots numbering h fs ss next).2 ∧
      EverySlots (Keyed κ' (relabelSlots numbering h fs ss next).2)
        (relabelSlots numbering h fs ss next).1
  | [], _ => ⟨κ, .refl κ next, everySlots_nil⟩
  | .one none :: ss, hss => keyed_relabelSlots h fs.tail ss hss
  | .one (some c) :: ss, hss => by
    obtain ⟨hc, hss⟩ := everySlots_one.mp hss
    obtain ⟨κ₁, hgrown, hnew⟩ := keyed_relabel (fs.head?.map (⟨h, ·⟩)) c hc
    obtain ⟨κ₂, hgrown', hslots⟩ := keyed_relabelSlots h fs.tail ss (hgrown.everySlots hss)
    refine ⟨κ₂, hgrown.trans hgrown', ?_⟩
    simp only [relabelSlots, everySlots_one]
    exact ⟨hgrown'.every hnew, hslots⟩
  | .many cs :: ss, hss => by
    obtain ⟨hcs, hss⟩ := everySlots_many.mp hss
    obtain ⟨κ₁, hgrown, hnew⟩ := keyed_relabelItems (fs.head?.map (⟨h, ·⟩)) cs hcs
    obtain ⟨κ₂, hgrown', hslots⟩ := keyed_relabelSlots h fs.tail ss (hgrown.everySlots hss)
    refine ⟨κ₂, hgrown.trans hgrown', ?_⟩
    simp only [relabelSlots, everySlots_many]
    exact ⟨hgrown'.everyItems hnew, hslots⟩

theorem keyed_relabelItems {κ : Nat → Kind} {next : Nat} (seat : Option Seat) :
    (cs : List (Option Node)) → EveryItems (Keyed κ next) cs →
    ∃ κ', Grown κ next κ' (relabelItems numbering seat cs next).2 ∧
      EveryItems (Keyed κ' (relabelItems numbering seat cs next).2)
        (relabelItems numbering seat cs next).1
  | [], _ => ⟨κ, .refl κ next, everyItems_nil⟩
  | none :: cs, hcs => keyed_relabelItems seat cs hcs
  | some c :: cs, hcs => by
    obtain ⟨hc, hcs⟩ := everyItems_some.mp hcs
    obtain ⟨κ₁, hgrown, hnew⟩ := keyed_relabel seat c hc
    obtain ⟨κ₂, hgrown', hitems⟩ := keyed_relabelItems seat cs (hgrown.everyItems hcs)
    refine ⟨κ₂, hgrown.trans hgrown', ?_⟩
    simp only [relabelItems, everyItems_some]
    exact ⟨hgrown'.every hnew, hitems⟩

end

theorem marked_number {tree : Node} (h : ∀ c ∈ tree.walk, c.mark = none) (next : Nat) :
    (tree.number next).1.Marked (tree.number next).2 := by
  have hstart : tree.Every (Keyed (fun _ => .program) next) := fun c hc => keyed_of_unmarked (h c hc)
  obtain ⟨κ, -, hnew⟩ := keyed_relabel none tree hstart
  exact marked_of_key hnew

end Node

namespace Pass

variable {env : Env} {κ : Nat → Kind} {trail : Trail} {n : Node} {facts : Facts} {o : Outcome}
  {i next : Nat}

structure Keyed (κ : Nat → Kind) (tree : Node) (facts : Facts) (next : Nat) : Prop where
  tree : tree.Every (Node.Keyed κ next)
  recorded : facts.Recorded (Node.Every (Node.Keyed κ next))
  functions : facts.Recorded fun fn => fn.isFunction = true

theorem placeAll_keyed (st : State) {ns : List Node}
    (h : ∀ n ∈ ns, n.Every (Node.Keyed κ st.next)) :
    ∃ κ', Grown κ st.next κ' (st.placeAll ns).2.next ∧
      ∀ m ∈ (st.placeAll ns).1, m.Every (Node.Keyed κ' (st.placeAll ns).2.next) := by
  induction ns generalizing st κ with
  | nil => exact ⟨κ, .refl κ st.next, nofun⟩
  | cons n ns ih =>
    rw [List.forall_mem_cons] at h
    obtain ⟨κ₁, hgrown, hnew⟩ := keyed_relabel none n h.1
    obtain ⟨κ₂, hgrown', hrest⟩ := ih (st.place n).2 fun m hm => hgrown.every (h.2 m hm)
    exact ⟨κ₂, hgrown.trans hgrown', List.forall_mem_cons.mpr ⟨hgrown'.every hnew, hrest⟩⟩

theorem install_keyed (st : State) {l : Landing}
    (h : ∀ n ∈ l.nodes, n.Every (Node.Keyed κ st.next)) :
    ∃ κ', Grown κ st.next κ' (st.install l).2.next ∧
      ∀ m ∈ (st.install l).1.nodes, m.Every (Node.Keyed κ' (st.install l).2.next) := by
  cases l with
  | kept n =>
    obtain ⟨κ', hgrown, hnew⟩ := keyed_relabel none n (h n (List.mem_singleton_self n))
    refine ⟨κ', hgrown, fun m hm => ?_⟩
    rw [List.mem_singleton.mp hm]
    exact hnew
  | left ns => exact placeAll_keyed st h

theorem mark_of_made {site : Site} {n c : Node} (h : Rule.Made site n c) : c.mark = none := by
  cases h <;> rfl

theorem Env.Standard.answer_keyed (h : env.Standard) (hanswer : Answers env i trail facts n o)
    (hkeyed : Keyed κ (trail.plug n) facts next) : ∀ c ∈ o.walk, c.Keyed κ next := by
  intro c hc
  rcases h.answers_cases hanswer with hmove | hinline
  · rcases hmove.old_or_made hc with hold | hmade
    · exact Trail.every_of_plug trail hkeyed.tree c hold
    · exact keyed_of_unmarked (mark_of_made hmade)
  · obtain ⟨t, callee, arguments, fn, m, rfl, -, hexpands, rfl⟩ :=
      Rule.expands_of_inlineReturn hinline
    exact keyed_of_unmarked (hexpands.head_of_mem_walk hc).1

theorem Step.keyed (hstandard : env.Standard) {a b : Node × State} (h : Step env a b)
    (ha : Keyed κ a.1 a.2.facts a.2.next) : ∃ κ', Keyed κ' b.1 b.2.facts b.2.next := by
  cases h with
  | note => exact ⟨κ, ha⟩
  | fail => exact ⟨κ, ha⟩
  | @learn trail n st i fact hanswer =>
    have hmove := hstandard.learn_move hanswer
    rw [State.facts_learn, State.next_learn]
    refine ⟨κ, ha.tree, ha.recorded.learn ?_, ha.functions.learn ?_⟩
    · rintro name fn rfl
      exact (Trail.every_of_plug trail ha.tree).below hmove.function_mem_walk.1
    · rintro name fn rfl
      exact hmove.function_mem_walk.2
  | @leave trail n st =>
    rw [State.leave_eq]
    refine ⟨κ, ha.tree, ?_, ?_⟩
    · dsimp only
      split
      · exact ha.recorded.update (Trail.every_of_plug trail ha.tree)
      · exact ha.recorded
    · dsimp only
      split
      · rename_i hfunction
        exact ha.functions.update hfunction
      · exact ha.functions
  | @edit trail n st i o l hanswer hland =>
    have hwalk := hstandard.answer_keyed hanswer ha
    obtain ⟨f, fs, rfl, hlands, htakes, heq⟩ := edit_cases (st.note (.changed i)) hland
    have hnodes : ∀ m ∈ l.nodes, m.Every (Node.Keyed κ st.next) := by
      intro m hm c hc
      rcases hlands.mem_walk hm hc with hold | rfl | ⟨ns, -, rfl⟩
      · exact hwalk c hold
      · exact keyed_of_unmarked rfl
      · exact keyed_of_unmarked rfl
    obtain ⟨κ', hgrown, hnew⟩ := install_keyed (st.note (.changed i)) hnodes
    rw [State.facts_install, heq]
    refine ⟨κ', ?_, fun e he => hgrown.every (ha.recorded e he), ha.functions⟩
    exact Trail.every_exchange (fun _ => ()) (fun _ _ _ _ => rfl) (fun _ _ _ _ hc => hc) htakes rfl
      (fun hself => hself) hnew (hgrown.every ha.tree)

theorem Steps.keyed (hstandard : env.Standard) {a b : Node × State} (h : Steps env a b)
    (ha : Keyed κ a.1 a.2.facts a.2.next) : ∃ κ', Keyed κ' b.1 b.2.facts b.2.next := by
  induction h with
  | refl => exact ⟨κ, ha⟩
  | tail _ hstep ih =>
    obtain ⟨κ', hkeyed⟩ := ih
    exact hstep.keyed hstandard hkeyed

end Pass

theorem Site.isFunction_of_function? {site : Site} {here fn : Node} {name : String}
    {κ : Nat → Kind} {next : Nat} (h : site.function? here name = some fn)
    (hkeyed : Pass.Keyed κ (site.trail.plug here) site.facts next) : fn.isFunction = true := by
  unfold Site.function? at h
  obtain ⟨recorded, hrecorded, rfl⟩ := Option.map_eq_some_iff.mp h
  obtain ⟨e, he, rfl⟩ := Option.map_eq_some_iff.mp hrecorded
  have hmem := List.mem_of_find?_eq_some he
  have hold : e.2.isFunction = true := hkeyed.functions e hmem
  cases hmark : e.2.mark with
  | none => exact hold
  | some mark =>
    simp only [Option.bind_some]
    split
    · cases henclosing : site.trail.enclosing? mark here with
      | none => exact hold
      | some fn =>
        -- the mark was given to one kind of node only
        obtain ⟨hwalk, hmark'⟩ := Trail.enclosing_mem_walk henclosing
        have hkind := (hkeyed.tree fn hwalk mark hmark').2
        have hkind' := (hkeyed.recorded e hmem).self mark hmark
        rw [Option.getD_some, Node.isFunction, ← hkind, hkind'.2]
        exact hold
    · exact hold

end Unravel
