import Unravel.Proofs.Hoisting.Account

/-! The traversal of hoisting, against the account of the function declarations. -/

namespace Unravel.Hoist

open Node

theorem finding?_eq (limit depth : Nat) (inList : Bool) (found : Report) {t : Tag} {h : Head}
    {ss : List (Slot Node)} (hname : HasName (.mk t h ss)) :
    finding? limit inList depth found h ss = .ok ((functionName? h ss).map fun name =>
      ⟨fate limit inList depth found name, name, depth⟩) := by
  unfold finding?
  split
  case h_1 => rfl
  case h_2 hno =>
    have hsome : (functionName? .functionDeclaration ss).isSome = true := hname rfl
    unfold functionName? at hsome
    split at hsome
    case h_1 => exact (hno _ _ _ rfl).elim
    case h_2 => cases hsome
  case h_3 hno _ =>
    unfold functionName?
    split
    case h_1 => exact (hno rfl).elim
    case h_2 => rfl

theorem names_append (found : Report) (depth : Nat) (vs : List Verdict) :
    (found ++ vs.map (·.finding depth)).map (·.name) =
      found.map (·.name) ++ vs.map (·.declaration.name) := by
  rw [List.map_append, List.map_map]
  rfl

theorem findings_under (depth : Nat) (x : Nat × Nat) (vs : List Verdict) :
    (vs.map (·.under x)).map (·.finding depth) = vs.map (·.finding (depth + 1)) := by
  rw [List.map_map]
  refine List.map_congr_left fun v _ => ?_
  simp [Verdict.finding, Verdict.under, Declaration.under]
  omega

/-- What the traversal makes of a part of a tree: verdicts account for its declarations, and the
result is read off the verdicts. -/
structure Lifts {α : Type} (limit depth : Nat) (found : Report) (ds : List Declaration)
    (vs : List Verdict) (rest : α) (result : Except Fault (Lifted α)) : Prop where
  accounts : Accounts limit depth (found.map (·.name)) ds vs
  result : result = .ok ⟨rest, moved vs, found ++ vs.map (·.finding depth)⟩

section
variable {α β : Type} {limit depth : Nat} {found : Report} {ds ds' : List Declaration}
  {vs vs' : List Verdict} {rest : α} {rest' : β} {result : Except Fault (Lifted α)}
  {result' : Except Fault (Lifted β)}

theorem Lifts.under (x : Nat × Nat) (h : Lifts limit (depth + 1) found ds vs rest result) :
    Lifts limit depth found (ds.map (·.under x)) (vs.map (·.under x)) rest result where
  accounts := h.accounts.under x
  result := by rw [h.result, moved_under, findings_under]

theorem Lifts.append {γ : Type} {rest'' : γ} {result'' : Except Fault (Lifted γ)}
    (h : Lifts limit depth found ds vs rest result)
    (h' : Lifts limit depth (found ++ vs.map (·.finding depth)) ds' vs' rest' result')
    (hbeside : Beside ds ds')
    (hresult : result'' = .ok ⟨rest'', moved vs ++ moved vs',
      found ++ vs.map (·.finding depth) ++ vs'.map (·.finding depth)⟩) :
    Lifts limit depth found (ds ++ ds') (vs ++ vs') rest'' result'' where
  accounts := h.accounts.append (names_append found depth vs ▸ h'.accounts) hbeside
  result := by
    rw [hresult, moved_append h.accounts (names_append found depth vs ▸ h'.accounts) hbeside,
      List.map_append, List.append_assoc]

end

mutual

theorem liftNode_lifts (limit : Nat) (inList : Bool) : (depth : Nat) → (found : Report) →
    (n : Node) → n.Every HasName → ∃ vs, Lifts limit depth found (declarations inList n) vs
      (if gone vs [] then none else some (without (gone vs) n)) (liftNode limit inList depth found n)
  | depth, found, .mk t h ss, hn => by
    obtain ⟨hname, hss⟩ := every_mk.mp hn
    have hfinding := finding?_eq limit depth inList found hname
    cases hfunction : functionName? h ss with
    | none =>
      obtain ⟨vs, hvs⟩ := liftSlots_lifts limit depth found 0 ss hss
      rw [hfunction] at hfinding
      refine ⟨vs, ?_, ?_⟩
      · rw [declarations, hfunction]
        exact hvs.accounts
      · have hroot : gone vs [] = false :=
          gone_eq_false fun v hv => inside_slots 0 ss _ (hvs.accounts.mem hv)
        rw [hroot, if_neg Bool.false_ne_true, without, liftNode, hfinding]
        simp only [hvs.result, Option.map_none, bind, Except.bind, pure, Except.pure]
    | some name =>
      rw [hfunction, Option.map_some] at hfinding
      let d : Declaration := ⟨[], inList, name, .mk t h ss⟩
      have hds : declarations inList (.mk t h ss) = d :: declarationsSlots 0 ss := by
        rw [declarations, hfunction]
        rfl
      have hdeserves : ∀ f, Deserves limit depth (found.map (·.name)) d f ↔
          f = fate limit inList depth found name := deserves_iff limit depth found d
      by_cases hdiscarded : fate limit inList depth found name = .discarded
      · rw [hdiscarded] at hfinding hdeserves
        refine ⟨[⟨d, .discarded⟩], ?_, ?_⟩
        · rw [hds]
          exact .discarded rfl (inside_slots 0 ss) hdeserves
        · rw [liftNode, hfinding]
          rfl
      · obtain ⟨vs, hvs⟩ := liftSlots_lifts limit depth
          (found ++ [⟨fate limit inList depth found name, name, depth⟩]) 0 ss hss
        generalize fate limit inList depth found name = f at *
        have haccounts : Accounts limit depth (found.map (·.name) ++ [d.name])
            (declarationsSlots 0 ss) vs := by
          have h := hvs.accounts
          rwa [List.map_append] at h
        refine ⟨⟨d, f⟩ :: vs, ?_, ?_⟩
        · rw [hds]
          exact haccounts.kept rfl hdiscarded (inside_slots 0 ss) hdeserves
        · have hrest : without (gone (⟨d, f⟩ :: vs)) (.mk t h ss) =
              .mk t h (withoutSlots (gone vs) 0 ss) :=
            without_congr _ fun x p => gone_root_cons f rfl x p
          rw [gone_root_nil f rfl haccounts (inside_slots 0 ss), hrest,
            moved_kept f rfl haccounts (inside_slots 0 ss), liftNode, hfinding]
          simp only [hvs.result, bind, Except.bind, pure, Except.pure]
          cases f with
          | hoisted => simp [d, without, Fate.leaves, Verdict.finding]
          | pinned => simp [d, Fate.leaves, Verdict.finding]
          | discarded => exact absurd rfl hdiscarded
          | unresolved => simp [d, Fate.leaves, Verdict.finding]

theorem liftSlots_lifts (limit : Nat) : (depth : Nat) → (found : Report) → (i : Nat) →
    (ss : List (Slot Node)) → EverySlots HasName ss → ∃ vs,
      Lifts limit depth found (declarationsSlots i ss) vs (withoutSlots (gone vs) i ss)
        (liftSlots limit (depth + 1) found ss)
  | depth, found, i, [], _ => ⟨[], ⟨rfl, trivial⟩, by rw [liftSlots]; simp [moved, withoutSlots]⟩
  | depth, found, i, .one none :: ss, hss => by
    obtain ⟨vs, hvs⟩ := liftSlots_lifts limit depth found (i + 1) ss hss
    refine ⟨vs, hvs.accounts, ?_⟩
    rw [liftSlots, hvs.result]
    rfl
  | depth, found, i, .one (some c) :: ss, hss => by
    obtain ⟨hc, hss⟩ := everySlots_one.mp hss
    obtain ⟨vs, hvs⟩ := liftNode_lifts limit false (depth + 1) found c hc
    rw [hvs.accounts.root_stays, if_neg Bool.false_ne_true] at hvs
    have hup := hvs.under (i, 0)
    obtain ⟨vs', hvs'⟩ := liftSlots_lifts limit depth
      (found ++ (vs.map (·.under (i, 0))).map (·.finding depth)) (i + 1) ss hss
    have hstarts : ∀ d ∈ (declarations false c).map (·.under (i, 0)),
        ∃ x p, d.place = x :: p ∧ x.1 = i := fun d hd => by
      obtain ⟨x, p, hplace, rfl⟩ := starts_under _ _ d hd
      exact ⟨(i, 0), p, hplace, rfl⟩
    refine ⟨_, hup.append hvs' (beside_slots ss hstarts) ?_⟩
    have hfirst : without (fun p => gone (vs.map (·.under (i, 0)) ++ vs') ((i, 0) :: p)) c =
        without (gone vs) c := by
      refine congrArg (without · c) (funext fun p => ?_)
      rw [gone_append, gone_under, hvs'.accounts.gone_later (i + 1 ≤ ·.1) (starts_slots (i + 1) ss)
        (Nat.not_succ_le_self i), Bool.or_false]
    have hlater : withoutSlots (gone (vs.map (·.under (i, 0)) ++ vs')) (i + 1) ss =
        withoutSlots (gone vs') (i + 1) ss := by
      refine withoutSlots_congr (i + 1) ss fun i' k p hle => ?_
      rw [gone_append, hup.accounts.gone_later (·.1 = i) hstarts (by grind), Bool.false_or]
    rw [liftSlots, hup.result, withoutSlots, hfirst, hlater]
    simp only [bind, Except.bind, hvs'.result, pure, Except.pure]
  | depth, found, i, .many cs :: ss, hss => by
    obtain ⟨hcs, hss⟩ := everySlots_many.mp hss
    obtain ⟨vs, hvs⟩ := liftItems_lifts limit depth found i 0 cs hcs
    obtain ⟨vs', hvs'⟩ :=
      liftSlots_lifts limit depth (found ++ vs.map (·.finding depth)) (i + 1) ss hss
    have hstarts : ∀ d ∈ declarationsItems i 0 cs, ∃ x p, d.place = x :: p ∧ x.1 = i :=
      fun d hd => by
        obtain ⟨x, p, hplace, hslot, -⟩ := starts_items i 0 cs d hd
        exact ⟨x, p, hplace, hslot⟩
    refine ⟨_, hvs.append hvs' (beside_slots ss hstarts) ?_⟩
    have hfirst : withoutItems (gone (vs ++ vs')) i 0 cs = withoutItems (gone vs) i 0 cs := by
      refine withoutItems_congr i 0 cs fun k p _ => ?_
      rw [gone_append, hvs'.accounts.gone_later (i + 1 ≤ ·.1) (starts_slots (i + 1) ss)
        (Nat.not_succ_le_self i), Bool.or_false]
    have hlater : withoutSlots (gone (vs ++ vs')) (i + 1) ss =
        withoutSlots (gone vs') (i + 1) ss := by
      refine withoutSlots_congr (i + 1) ss fun i' k p hle => ?_
      rw [gone_append, hvs.accounts.gone_later (·.1 = i) hstarts (by grind), Bool.false_or]
    rw [liftSlots, hvs.result, withoutSlots, hfirst, hlater]
    simp only [bind, Except.bind, hvs'.result, pure, Except.pure]

theorem liftItems_lifts (limit : Nat) : (depth : Nat) → (found : Report) → (i k : Nat) →
    (cs : List (Option Node)) → EveryItems HasName cs → ∃ vs,
      Lifts limit depth found (declarationsItems i k cs) vs (withoutItems (gone vs) i k cs)
        (liftItems limit (depth + 1) found cs)
  | depth, found, i, k, [], _ => ⟨[], ⟨rfl, trivial⟩, by rw [liftItems]; simp [moved, withoutItems]⟩
  | depth, found, i, k, none :: cs, hcs => by
    obtain ⟨vs, hvs⟩ := liftItems_lifts limit depth found i (k + 1) cs hcs
    refine ⟨vs, hvs.accounts, ?_⟩
    rw [liftItems, hvs.result]
    rfl
  | depth, found, i, k, some c :: cs, hcs => by
    obtain ⟨hc, hcs⟩ := everyItems_some.mp hcs
    obtain ⟨vs, hvs⟩ := liftNode_lifts limit true (depth + 1) found c hc
    have hup := hvs.under (i, k)
    obtain ⟨vs', hvs'⟩ := liftItems_lifts limit depth
      (found ++ (vs.map (·.under (i, k))).map (·.finding depth)) i (k + 1) cs hcs
    refine ⟨_, hup.append hvs' (beside_items _ i k cs) ?_⟩
    have hhere (p : Place) : gone (vs.map (·.under (i, k)) ++ vs') ((i, k) :: p) = gone vs p := by
      rw [gone_append, gone_under, hvs'.accounts.gone_later (fun x => x.1 = i ∧ k + 1 ≤ x.2)
        (starts_items i (k + 1) cs) (by simp), Bool.or_false]
    have hlater : withoutItems (gone (vs.map (·.under (i, k)) ++ vs')) i (k + 1) cs =
        withoutItems (gone vs') i (k + 1) cs := by
      refine withoutItems_congr i (k + 1) cs fun k' p hle => ?_
      rw [gone_append, gone_under_of_ne (by grind), Bool.false_or]
    rw [liftItems, hup.result, withoutItems, hlater]
    simp only [hhere, bind, Except.bind, hvs'.result, pure, Except.pure]
    cases gone vs [] <;> rfl

end

/-! Hoisting. -/

theorem select_findings (vs : List Verdict) (f : Fate) :
    Report.select (vs.map (·.finding 0)) f = (vs.filter (·.fate == f)).map fun v =>
      (v.declaration.name, v.declaration.place.length) := by
  rw [Report.select, List.filter_map, List.map_map]
  refine List.map_congr_left fun v _ => ?_
  simp [Verdict.finding]

theorem hoist_program (limit : Nat) (t : Tag) {body : List (Option Node)}
    (hnames : (program t body).Every HasName) :
    ∃ vs, Lifts limit 0 [] (declarations false (program t body)) vs
        (some (program t (withoutItems (gone vs) 0 0 body)))
        (liftNode limit false 0 [] (program t body)) ∧
      hoist limit (program t body) =
        (program t ((moved vs).map some ++ withoutItems (gone vs) 0 0 body),
          .ok (vs.map (·.finding 0))) := by
  obtain ⟨vs, hlifts⟩ := liftNode_lifts limit false 0 [] (program t body) hnames
  rw [hlifts.accounts.root_stays, if_neg Bool.false_ne_true] at hlifts
  refine ⟨vs, hlifts, ?_⟩
  rw [hoist, hlifts.result]
  rfl

/-- Hoisting loses and duplicates nothing that it does not report. The declarations that are reached
are judged in pre-order, each with the one fate that it deserves, and reported under it. The hoisted
ones stand in front, in their order, and behind them stands the program without what was taken off
its lists, all else in its place. -/
theorem hoist_accounts (limit : Nat) (t : Tag) (body : List (Option Node))
    (hnames : (program t body).Every HasName) :
    ∃ (vs : List Verdict) (r : Report),
      Accounts limit 0 [] (declarations false (program t body)) vs ∧
      (∀ f, r.select f = (vs.filter (·.fate == f)).map fun v =>
        (v.declaration.name, v.declaration.place.length)) ∧
      hoist limit (program t body) =
        (program t ((moved vs).map some ++ withoutItems (gone vs) 0 0 body), .ok r) := by
  obtain ⟨vs, hlifts, hhoist⟩ := hoist_program limit t hnames
  exact ⟨vs, vs.map (·.finding 0), hlifts.accounts, select_findings vs, hhoist⟩

def function (name : String) (body : List Node) : Node :=
  .functionDeclaration (.fresh none) (some (.identifier (.fresh none) name)) []
    (some (.blockStatement (.fresh none) (body.map some)))

def guarded (n : Node) : Node :=
  .mk (.fresh none) .ifStatement [.one (some (.identifier (.fresh none) "x")), .one (some n), .one none]

/-- A function of each fate, with functions inside functions. -/
def fourFates : List (Option Node) :=
  [function "f" [function "g" [], function "f" []], guarded (function "h" []), function "g" []].map
    some

theorem hoist_fourFates : (program (.fresh none) fourFates).Every HasName ∧
    ∃ (vs : List Verdict) (r : Report),
      Accounts 1 0 [] (declarations false (program (.fresh none) fourFates)) vs ∧
      (∀ f, r.select f = (vs.filter (·.fate == f)).map fun v =>
        (v.declaration.name, v.declaration.place.length)) ∧
      hoist 1 (program (.fresh none) fourFates) =
        (program (.fresh none) ((moved vs).map some ++ withoutItems (gone vs) 0 0 fourFates), .ok r) :=
  ⟨by decide, hoist_accounts 1 (.fresh none) fourFates (by decide)⟩

example : hoist 1 (program (.fresh none) fourFates) =
    (program (.fresh none) ([function "f" [], function "g" [], guarded (function "h" []),
      function "g" []].map some),
    .ok [⟨.hoisted, "f", 1⟩, ⟨.hoisted, "g", 3⟩, ⟨.discarded, "f", 3⟩, ⟨.pinned, "h", 2⟩,
      ⟨.unresolved, "g", 1⟩]) := by cbv

end Unravel.Hoist
