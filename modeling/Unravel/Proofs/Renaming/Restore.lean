import Mathlib.Data.Fintype.EquivFin
import Unravel.Proofs.Renaming.Exchange
import Unravel.Proofs.Renaming.Pass
import Unravel.Proofs.Renaming.Structure
import Unravel.Session

/-! Renaming before or after: a tree that is renamed and then simplified, with its factories collapsed
and its functions hoisted, ends as the tree does that is renamed last. The two runs are alike under the
exchange of the names; and since the steps make up no names, the exchange of the old name for the new
one is a renaming again. -/

namespace Unravel

open Node

variable {ν : String → String}

structure Restored where
  fixpoint : Fixpoint.Report
  collapsed : List String
  hoist : Hoist.Report
deriving DecidableEq

def Restored.mapNames (ν : String → String) (r : Restored) : Restored :=
  { r with collapsed := r.collapsed.map ν, hoist := r.hoist.mapNames ν }

namespace Session

/-- Simplifies a tree to a fixed point, collapses its factories and hoists its functions. -/
def restore (s : Session) (slot : String) (tree : Node) : Except Fault (Session × Restored) := do
  let (s, fixpoint) := s.simplify slot tree
  let fixpoint ← fixpoint
  let (s, collapsed) := s.collapse slot ((s.trees.get? slot).getD tree)
  let collapsed ← collapsed
  let (s, hoist) := s.hoist slot ((s.trees.get? slot).getD tree)
  let hoist ← hoist
  return (s, { fixpoint, collapsed, hoist })

/-! The same steps under other names. -/

def mapNames (ν : String → String) (s : Session) : Session :=
  { s with facts := s.facts.mapNames ν, trees := s.trees.mapNames id (Node.mapNames ν) }

section
variable (s : Session) (slot : String) (tree : Node)

theorem get?_mapNames : (s.mapNames ν).trees.get? slot = (s.trees.get? slot).map (Node.mapNames ν) :=
  Table.get?_mapNames Function.injective_id s.trees slot

theorem set_mapNames : Table.set (s.trees.mapNames id (Node.mapNames ν)) slot (tree.mapNames ν) =
    (s.trees.set slot tree).mapNames id (Node.mapNames ν) :=
  Table.set_mapNames Function.injective_id s.trees slot tree

theorem settle_mapNames :
    (s.mapNames ν).settle slot (tree.mapNames ν) = (s.settle slot tree).mapNames ν := by
  simp only [settle, mapNames, number_mapNames, set_mapNames]
  rw [Facts.refresh_mapNames s.facts fun mark => find?_mapNames _ mark]

theorem collapse_mapNames (hν : Function.Involutive ν) :
    (s.mapNames ν).collapse slot (tree.mapNames ν) =
      Prod.map (mapNames ν) (Except.map (List.map ν)) (s.collapse slot tree) := by
  unfold collapse
  rw [Factory.collapse_mapNames hν]
  cases Factory.collapse tree with
  | error f => rfl
  | ok r => exact Prod.ext (s.settle_mapNames slot r.1) rfl

theorem hoist_mapNames (hν : Function.Involutive ν) :
    (s.mapNames ν).hoist slot (tree.mapNames ν) =
      Prod.map (mapNames ν) (Except.map (Hoist.Report.mapNames ν)) (s.hoist slot tree) := by
  unfold hoist
  rw [show (s.mapNames ν).settings = s.settings from rfl, Hoist.hoist_mapNames hν]
  exact Prod.ext (s.settle_mapNames slot _) rfl

theorem simplify_mapNames {I : Node → Facts → Prop}
    (henv : ∀ mutated, Pass.Env.Impartial ⟨s.rules, s.settings, mutated⟩ ν I)
    (hi : I tree s.facts) :
    (s.mapNames ν).simplify slot (tree.mapNames ν) =
      Prod.map (mapNames ν) id (s.simplify slot tree) := by
  have hrun : Fixpoint.run visitBound s.rules s.settings (tree.mapNames ν) (s.facts.mapNames ν) s.next
      = _ := Fixpoint.run_mapNames henv hi s.next
  simp only [simplify, mapNames, hrun, Prod.map, Fixpoint.Progress.mapNames, set_mapNames, id]

theorem restore_mapNames {I : Node → Facts → Prop}
    (henv : ∀ mutated, Pass.Env.Impartial ⟨s.rules, s.settings, mutated⟩ ν I)
    (hi : I tree s.facts) :
    (s.mapNames ν).restore slot (tree.mapNames ν) =
      (s.restore slot tree).map (Prod.map (mapNames ν) (Restored.mapNames ν)) := by
  have hν := (henv []).fair.involutive
  have hget (s : Session) : ((s.mapNames ν).trees.get? slot).getD (tree.mapNames ν) =
      ((s.trees.get? slot).getD tree).mapNames ν := by
    rw [get?_mapNames]
    cases s.trees.get? slot <;> rfl
  unfold restore
  rw [s.simplify_mapNames slot tree henv hi]
  generalize s.simplify slot tree = q
  obtain ⟨s₁, _ | fixpoint⟩ := q
  · rfl
  simp only [Prod.map, id, ok_bind]
  rw [hget, s₁.collapse_mapNames slot _ hν]
  generalize s₁.collapse slot ((s₁.trees.get? slot).getD tree) = q
  obtain ⟨s₂, _ | collapsed⟩ := q
  · rfl
  simp only [Prod.map, Except.map, ok_bind]
  rw [hget, s₂.hoist_mapNames slot _ hν]
  generalize s₂.hoist slot ((s₂.trees.get? slot).getD tree) = q
  obtain ⟨s₃, _ | hoist⟩ := q
  · rfl
  · rfl

end

end Session

/-! The grammar and the fixed names stay. -/

namespace Node

variable {N : String → Prop} {n : Node}

def Plain (N : String → Prop) (n : Node) : Prop := n.Conforms ∧ n.Spelled N

theorem every_plain_iff : n.Every (Plain N) ↔ n.WellKinded ∧ n.Every (Spelled N) :=
  ⟨fun h => ⟨h.mono fun _ hc => hc.1, h.mono fun _ hc => hc.2⟩,
    fun h c hc => ⟨h.1 c hc, h.2 c hc⟩⟩

theorem every_fine_iff : n.Every (Fine fun _ => True) ↔ n.WellKinded :=
  ⟨fun h => h.mono fun _ hc => hc.1, fun h => h.mono fun _ hc => ⟨hc, trivial⟩⟩

end Node

namespace Session

structure Holds (N : String → Prop) (s : Session) (slot : String) (tree : Node) : Prop where
  trees : s.trees = [(slot, tree)]
  root : tree.kind = .program
  plain : tree.Every (Plain N)
  recorded : s.facts.Recorded (Every (Plain N))

variable {N : String → Prop} {s s' : Session} {slot : String} {tree tree' : Node}

theorem Holds.settle (h : s.Holds N slot tree) (hroot : tree'.kind = .program)
    (hplain : tree'.Every (Plain N)) :
    (s.settle slot tree').Holds N slot (tree'.number s.next).1 := by
  obtain ⟨hconforms, hspelled⟩ := every_plain_iff.mp hplain
  have hnumbered : (tree'.number s.next).1.Every (Plain N) :=
    every_plain_iff.mpr ⟨hconforms.number s.next,
      every_number (spelled_relabel numbering_keepsHeads) hspelled s.next⟩
  refine ⟨?_, ?_, hnumbered, h.recorded.refresh fun mark n hn => ?_⟩
  · simp [Session.settle, h.trees, Table.set, Table.has]
  · rw [kind, head_number]
    exact hroot
  · exact hnumbered.below (List.mem_of_find?_eq_some hn)

theorem Holds.collapse (h : s.Holds N slot tree) {r : Except Fault (List String)}
    (hstep : s.collapse slot tree = (s', r)) : ∃ tree', s'.Holds N slot tree' := by
  obtain ⟨hconforms, hspelled⟩ := every_plain_iff.mp h.plain
  obtain ⟨names, hcollapse, hhead, hfine⟩ :=
    Factory.collapse_wellKinded (fun _ => trivial) (every_fine_iff.mpr hconforms)
  rw [Session.collapse, hcollapse] at hstep
  cases hstep
  have hroot : (Factory.collapseAll tree).kind = .program := by
    rw [kind, hhead]
    exact h.root
  exact ⟨_, h.settle hroot (every_plain_iff.mpr ⟨every_fine_iff.mp hfine,
    Factory.every_spelled_collapseAll tree hspelled⟩)⟩

theorem Holds.hoist (h : s.Holds N slot tree) {r : Except Fault Hoist.Report}
    (hstep : s.hoist slot tree = (s', r)) : ∃ tree', s'.Holds N slot tree' := by
  obtain ⟨hconforms, hspelled⟩ := every_plain_iff.mp h.plain
  obtain ⟨tree', report, hhoist, hhead, hfine⟩ :=
    @Hoist.hoist_wellKinded _ s.settings.dedupDepth tree h.root (every_fine_iff.mpr hconforms)
  have hspelled' : (Hoist.hoist s.settings.dedupDepth tree).1.Every (Spelled N) :=
    Hoist.every_spelled_hoist hspelled
  rw [hhoist] at hspelled'
  rw [Session.hoist, hhoist] at hstep
  cases hstep
  have hroot : tree'.kind = .program := by
    rw [kind, hhead]
    exact h.root
  exact ⟨_, h.settle hroot (every_plain_iff.mpr ⟨every_fine_iff.mp hfine, hspelled'⟩)⟩

theorem exists_progress {r : Except Fault Fixpoint.Report}
    (h : s.simplify slot tree = (s', r)) :
    ∃ p, Fixpoint.run visitBound s.rules s.settings tree s.facts s.next = (p, r) ∧
      s' = { s with
        trees := s.trees.set slot p.tree
        facts := p.facts
        next := p.next
        log := p.log ++ s.log } := by
  unfold simplify at h
  generalize hrun : Fixpoint.run visitBound s.rules s.settings tree s.facts s.next = q at h
  obtain ⟨p, r'⟩ := q
  cases h
  exact ⟨p, rfl, rfl⟩

section
variable {rules : List Rule} {settings : Settings} {next : Nat}
  (hrules : Rule.catalog settings = .ok rules)
include hrules

theorem holds_simplify (hroot : tree.kind = .program) (hplain : tree.Every (Plain N))
    {r : Except Fault Fixpoint.Report}
    (hstep : simplify { rules, settings, next } slot tree = (s', r)) :
    ∃ tree', s'.Holds N slot tree' := by
  obtain ⟨hconforms, hspelled⟩ := every_plain_iff.mp hplain
  have hstandard (mutated : List String) : Pass.Env.Standard ⟨rules, settings, mutated⟩ := hrules
  obtain ⟨p, hrun, rfl⟩ := exists_progress hstep
  have hformed : Formed p.tree p.facts :=
    Fixpoint.progress_keeps (fun mutated => (hstandard mutated).keeps_formed) hrun ⟨hconforms, nofun⟩
  have hspelling : Spelling N p.tree p.facts :=
    Fixpoint.progress_keeps (fun mutated => (hstandard mutated).keeps_spelling) hrun
      ⟨hspelled, nofun⟩
  have hhead : p.tree.head = tree.head :=
    Fixpoint.progress_keeps (fun mutated => Pass.Env.keeps_head _ tree.head) hrun rfl
  refine ⟨p.tree, rfl, ?_, every_plain_iff.mpr ⟨hformed.tree, hspelling.tree⟩, fun e he => ?_⟩
  · rw [kind, hhead]
    exact hroot
  · exact every_plain_iff.mpr ⟨hformed.recorded e he, hspelling.recorded e he⟩

theorem holds_restore (hroot : tree.kind = .program) (hplain : tree.Every (Plain N)) {r : Restored}
    (h : restore { rules, settings, next } slot tree = .ok (s', r)) :
    ∃ tree', s'.Holds N slot tree' := by
  have hget {s : Session} {t : Node} (hs : s.Holds N slot t) :
      (s.trees.get? slot).getD tree = t := by
    simp [hs.trees, Table.get?]
  unfold restore at h
  generalize hsimplify : simplify { rules, settings, next } slot tree = q at h
  obtain ⟨s₁, fixpoint⟩ := q
  obtain ⟨t₁, h₁⟩ := holds_simplify hrules hroot hplain hsimplify
  obtain ⟨fixpoint, -, h⟩ := bind_eq_ok.mp h
  rw [hget h₁] at h
  generalize hcollapse : s₁.collapse slot t₁ = q at h
  obtain ⟨s₂, collapsed⟩ := q
  obtain ⟨t₂, h₂⟩ := h₁.collapse hcollapse
  obtain ⟨collapsed, -, h⟩ := bind_eq_ok.mp h
  rw [hget h₂] at h
  generalize hhoist : s₂.hoist slot t₂ = q at h
  obtain ⟨s₃, hoist⟩ := q
  obtain ⟨t₃, h₃⟩ := h₂.hoist hhoist
  obtain ⟨hoist, -, h⟩ := bind_eq_ok.mp h
  cases h
  exact ⟨t₃, h₃⟩

end

end Session

/-! All names of a session and its reports. -/

def Facts.names (facts : Facts) : List String :=
  facts.constants.map (·.1) ++ facts.arrays.map (·.1) ++ facts.functions.map (·.1) ++
    facts.functions.flatMap (·.2.names)

def Session.names (s : Session) : List String := s.facts.names ++ s.trees.flatMap (·.2.names)

def Restored.names (r : Restored) : List String := r.collapsed ++ r.hoist.map (·.name)

theorem Table.map_fst_mapNames {α : Type} {g : α → α} (t : Table α) :
    (t.mapNames ν g).map (·.1) = (t.map (·.1)).map ν := by
  simp [mapNames, Function.comp_def]

theorem Table.flatMap_names_mapNames {ν' : String → String} (t : Table Node) :
    (t.mapNames ν' (Node.mapNames ν)).flatMap (·.2.names) = (t.flatMap (·.2.names)).map ν := by
  simp [mapNames, List.flatMap_map, List.map_flatMap, names_mapNames]

theorem Facts.names_mapNames (facts : Facts) : (facts.mapNames ν).names = facts.names.map ν := by
  simp only [names, mapNames, Table.map_fst_mapNames, Table.flatMap_names_mapNames, List.map_append]

theorem Session.names_mapNames (s : Session) : (s.mapNames ν).names = s.names.map ν := by
  simp only [names, mapNames, Facts.names_mapNames, Table.flatMap_names_mapNames, List.map_append]

theorem Restored.names_mapNames (r : Restored) : (r.mapNames ν).names = r.names.map ν := by
  simp [names, mapNames, Hoist.Finding.mapNames, Function.comp_def]

/-! Renamed sessions. -/

def Facts.renamed (old new : String) (facts : Facts) : Facts where
  constants := facts.constants.mapNames (renameTo old new) id
  arrays := facts.arrays.mapNames (renameTo old new) id
  functions := facts.functions.mapNames (renameTo old new) fun fn => (fn.rename old new).1

def Session.renamed (old new : String) (s : Session) : Session :=
  { s with
    facts := s.facts.renamed old new
    trees := s.trees.mapNames id fun tree => (tree.rename old new).1 }

theorem Table.mapNames_congr {α : Type} {ν ν' : String → String} {g g' : α → α} {t : Table α}
    (hnames : ∀ e ∈ t, ν e.1 = ν' e.1) (hentries : ∀ e ∈ t, g e.2 = g' e.2) :
    t.mapNames ν g = t.mapNames ν' g' :=
  List.map_congr_left fun e he => Prod.ext (hnames e he) (hentries e he)

variable {N : String → Prop} {old new : String}

theorem rename_eq_of_plain (hN : N old) {n : Node} (hplain : n.Every (Plain N))
    (hnew : new ∉ n.names) : n.mapNames (exchange old new) = (n.rename old new).1 := by
  obtain ⟨hconforms, hspelled⟩ := every_plain_iff.mp hplain
  exact (rename_eq_mapNames hN hconforms hspelled hnew).symm

theorem Facts.mapNames_eq_renamed (hN : N old) {facts : Facts}
    (hrecorded : facts.Recorded (Every (Plain N))) (hnew : new ∉ facts.names) :
    facts.mapNames (exchange old new) = facts.renamed old new := by
  simp only [names, List.mem_append, List.mem_map, List.mem_flatMap, not_or, not_exists,
    not_and] at hnew
  obtain ⟨⟨⟨hconstants, harrays⟩, hfunctions⟩, hbodies⟩ := hnew
  simp only [mapNames, renamed, Facts.mk.injEq]
  refine ⟨Table.mapNames_congr (fun e he => exchange_eq_renameTo (hconstants e he)) fun _ _ => rfl,
    Table.mapNames_congr (fun e he => exchange_eq_renameTo (harrays e he)) fun _ _ => rfl,
    Table.mapNames_congr (fun e he => exchange_eq_renameTo (hfunctions e he)) fun e he => ?_⟩
  exact rename_eq_of_plain hN (hrecorded e he) (hbodies e he)

theorem Session.Holds.mapNames_eq_renamed (hN : N old) {s : Session} {slot : String} {tree : Node}
    (h : s.Holds N slot tree) (hnew : new ∉ s.names) :
    s.mapNames (exchange old new) = s.renamed old new := by
  simp only [names, h.trees, List.flatMap_singleton, List.mem_append, not_or] at hnew
  simp only [mapNames, renamed, h.trees, Facts.mapNames_eq_renamed hN h.recorded hnew.1]
  simp [Table.mapNames, rename_eq_of_plain hN h.plain hnew.2]

theorem Restored.mapNames_eq_renamed {r : Restored} (hnew : new ∉ r.names) :
    r.mapNames (exchange old new) = r.mapNames (renameTo old new) := by
  simp only [names, List.mem_append, List.mem_map, not_or, not_exists, not_and] at hnew
  simp only [mapNames, Restored.mk.injEq, true_and]
  refine ⟨List.map_congr_left fun name hname => exchange_eq_renameTo ?_,
    List.map_congr_left fun f hf => ?_⟩
  · exact fun heq => hnew.1 (heq ▸ hname)
  · exact congrArg (Hoist.Finding.mk f.fate · f.depth) (exchange_eq_renameTo (hnew.2 f hf))

namespace Session

theorem not_mem_of_exchange {names : List String} {a b : String} (hb : b ∉ names)
    (hsame : names.map (exchange a b) = names) : a ∉ names := by
  intro ha
  have hmem := List.mem_map_of_mem (f := exchange a b) ha
  rw [hsame, exchange, Equiv.swap_apply_left] at hmem
  exact hb hmem

section
variable {rules : List Rule} {settings : Settings} {next : Nat} {slot : String} {tree : Node}
  {s : Session} {r : Restored} (hrules : Rule.catalog settings = .ok rules)
include hrules

/-- From a session without facts and other trees, the way leads the same with two names exchanged. -/
theorem restore_exchange {a b : String} (ha : settings.Free a) (hb : settings.Free b)
    (hspelled : tree.Every (Spelled fun name => name = a ∨ name = b)) :
    restore { rules, settings, next } slot (tree.mapNames (exchange a b)) =
      (restore { rules, settings, next } slot tree).map
        (Prod.map (mapNames (exchange a b)) (Restored.mapNames (exchange a b))) := by
  have henv (mutated : List String) : Pass.Env.Impartial ⟨rules, settings, mutated⟩ (exchange a b)
      (Spelling fun name => name = a ∨ name = b) := by
    have hstandard : Pass.Env.Standard ⟨rules, settings, mutated⟩ := hrules
    refine ⟨hrules, ha.fair hb, hstandard.keeps_spelling, fun hspelling => ?_⟩
    exact hspelling.tree.mono fun _ hc => hc.steady fun name hname =>
      exchange_of_ne (fun heq => hname (.inl heq)) fun heq => hname (.inr heq)
  exact restore_mapNames { rules, settings, next } slot tree henv ⟨hspelled, nofun⟩

theorem not_mem_names_restore (hregular : tree.Every Regular) {name : String}
    (hname : name ∉ tree.names) (hfree : settings.Free name)
    (h : restore { rules, settings, next } slot tree = .ok (s, r)) :
    name ∉ s.names ∧ name ∉ r.names := by
  -- a name that occurs nowhere takes the place of the given one, and nothing changes
  obtain ⟨other, hother⟩ := Infinite.exists_notMem_finset
    ("arguments" :: (tree.names ++ s.names ++ r.names ++ settings.deferredCallees ++
      settings.prunedNames)).toFinset
  simp only [List.mem_toFinset, List.mem_cons, List.mem_append, not_or] at hother
  obtain ⟨harguments, ⟨⟨⟨htree, hs⟩, hr⟩, hdeferred⟩, hpruned⟩ := hother
  have hsame : tree.mapNames (exchange name other) = tree := by
    refine mapNames_eq_self fun x hx => exchange_of_ne ?_ ?_
    · exact fun heq => hname (heq ▸ hx)
    · exact fun heq => htree (heq ▸ hx)
  have hspelled : tree.Every (Spelled fun x => x = name ∨ x = other) := by
    refine every_spelled hregular fun x hx => ?_
    rintro (rfl | rfl)
    · exact hname (fixedNames_subset tree hx)
    · exact htree (fixedNames_subset tree hx)
  have hagain : restore { rules, settings, next } slot (tree.mapNames (exchange name other)) = _ :=
    restore_exchange hrules hfree ⟨harguments, hdeferred, hpruned⟩ hspelled
  rw [hsame, h] at hagain
  obtain ⟨hsession, hreport⟩ := Prod.mk.inj (Except.ok.inj hagain)
  constructor
  · refine not_mem_of_exchange hs ?_
    rw [← names_mapNames, ← hsession]
  · refine not_mem_of_exchange hr ?_
    rw [← Restored.names_mapNames, ← hreport]

/-- Renaming a program first and last comes to the same: the steps lead to the same report under the
new name, and the tree, the facts and the recorded functions are the renamed ones. -/
theorem restore_rename (hroot : tree.kind = .program) (hregular : tree.Every Regular)
    (hnew : new ∉ tree.names) (hold : old ∉ tree.fixedNames) (hfree : settings.Free old)
    (hfree' : settings.Free new) (h : restore { rules, settings, next } slot tree = .ok (s, r)) :
    restore { rules, settings, next } slot (tree.rename old new).1 =
      .ok (s.renamed old new, r.mapNames (renameTo old new)) := by
  have hspelled : tree.Every (Spelled fun name => name = old ∨ name = new) := by
    refine every_spelled hregular fun name hname => ?_
    rintro (rfl | rfl)
    · exact hold hname
    · exact hnew (fixedNames_subset tree hname)
  have hplain := every_plain_iff.mpr ⟨hregular.mono fun _ hc => hc.1, hspelled⟩
  obtain ⟨tree', hholds⟩ := holds_restore hrules hroot hplain h
  obtain ⟨hs, hr⟩ := not_mem_names_restore hrules hregular hnew hfree' h
  calc restore { rules, settings, next } slot (tree.rename old new).1
      = restore { rules, settings, next } slot (tree.mapNames (exchange old new)) := by
        rw [rename_eq_of_plain (.inl rfl) hplain hnew]
    _ = .ok (s.mapNames (exchange old new), r.mapNames (exchange old new)) := by
        rw [restore_exchange hrules hfree hfree' hspelled, h]
        rfl
    _ = .ok (s.renamed old new, r.mapNames (renameTo old new)) := by
        rw [hholds.mapNames_eq_renamed (.inl rfl) hs, Restored.mapNames_eq_renamed hr]

end

/-- `var n = 1; function f() { var a = [n]; f = function () { return a; }; return f(); } f();` -/
def selfReplacing : Node :=
  let name (mark : Nat) (x : String) : Node := .identifier ⟨some mark, none⟩ x
  let declare (mark : Nat) (x : String) (init : Node) : Node :=
    .variableDeclaration ⟨some mark, none⟩ "var"
      [some (.variableDeclarator ⟨some (mark + 1), none⟩ (some (name (mark + 2) x)) (some init))]
  let call (mark : Nat) : Node := .callExpression ⟨some mark, none⟩ (name (mark + 1) "f") []
  let inner : Node := .functionExpression ⟨some 16, none⟩ none []
    (some (.blockStatement ⟨some 17, none⟩
      [some (.returnStatement ⟨some 18, none⟩ (some (name 19 "a")))]))
  let body : List Node :=
    [declare 8 "a" (.arrayExpression ⟨some 11, none⟩ [some (name 12 "n")]),
      .expressionStatement ⟨some 13, none⟩
        (.assignmentExpression ⟨some 14, none⟩ "=" (name 15 "f") inner),
      .returnStatement ⟨some 20, none⟩ (some (call 21))]
  .program ⟨some 0, none⟩
    [some (declare 1 "n" (.literal ⟨some 4, none⟩ (.int 1))),
      some (.functionDeclaration ⟨some 5, none⟩ (some (name 6 "f")) []
        (some (.blockStatement ⟨some 7, none⟩ (body.map some)))),
      some (.expressionStatement ⟨some 23, none⟩ (call 24))]

theorem selfReplacing_restore_rename : ∃ s r,
    restore { rules := Rule.standard, settings := {}, next := 26 } "main" selfReplacing =
      .ok (s, r) ∧
    restore { rules := Rule.standard, settings := {}, next := 26 } "main"
      (selfReplacing.rename "f" "g").1 = .ok (s.renamed "f" "g", r.mapNames (renameTo "f" "g")) ∧
    r.fixpoint.changesHistory = [1, 0, 0] ∧ r.collapsed = ["f"] ∧ r.hoist.names .hoisted = ["f"] := by
  have hrun : (restore { rules := Rule.standard, settings := {}, next := 26 } "main"
      selfReplacing).toOption.map
        (fun p => (p.2.fixpoint.changesHistory, p.2.collapsed, p.2.hoist.names .hoisted)) =
      some ([1, 0, 0], ["f"], ["f"]) := by
    decide +kernel
  generalize hrestore : restore { rules := Rule.standard, settings := {}, next := 26 } "main"
    selfReplacing = x at hrun
  match x, hrun with
  | .ok (s, r), hrun =>
    simp only [Except.toOption, Option.map_some, Option.some.injEq, Prod.mk.injEq] at hrun
    refine ⟨s, r, rfl, ?_, hrun⟩
    exact restore_rename rfl rfl (by decide) (by decide) (by decide) (by decide) (by decide)
      hrestore

end Session
end Unravel
