import Mathlib.Logic.Relation
import Unravel.Proofs.Exchange.Nesting

/-! Dangling consequents in data: those of an `if` with `else` that end in an open `if`. Data without
them nests as its tokens say. -/

namespace Unravel.Estree

/-! Data by its parts. -/

def isScalar : Estree → Bool
  | .list _ | .object _ => false
  | _ => true

section
variable {motive : Estree → Prop}

mutual

@[induction_eliminator]
theorem induct (list : ∀ items, (∀ e ∈ items, motive e) → motive (.list items))
    (object : ∀ fields : List (String × Estree), (∀ p ∈ fields, motive p.2) → motive (.object fields))
    (scalar : ∀ e : Estree, e.isScalar = true → motive e) : (e : Estree) → motive e
  | .list items => list items (inductItems list object scalar items)
  | .object fields => object fields (inductFields list object scalar fields)
  | .null => scalar .null rfl
  | .bool b => scalar (.bool b) rfl
  | .number n => scalar (.number n) rfl
  | .str s => scalar (.str s) rfl

theorem inductItems (list : ∀ items, (∀ e ∈ items, motive e) → motive (.list items))
    (object : ∀ fields : List (String × Estree), (∀ p ∈ fields, motive p.2) → motive (.object fields))
    (scalar : ∀ e : Estree, e.isScalar = true → motive e) :
    (items : List Estree) → ∀ e ∈ items, motive e
  | [], _, he => by cases he
  | d :: items, e, he => by
    obtain heq | he := List.mem_cons.mp he
    · rw [heq]
      exact induct list object scalar d
    · exact inductItems list object scalar items e he

theorem inductFields (list : ∀ items, (∀ e ∈ items, motive e) → motive (.list items))
    (object : ∀ fields : List (String × Estree), (∀ p ∈ fields, motive p.2) → motive (.object fields))
    (scalar : ∀ e : Estree, e.isScalar = true → motive e) :
    (fields : List (String × Estree)) → ∀ p ∈ fields, motive p.2
  | [], _, hp => by cases hp
  | (key, d) :: fields, p, hp => by
    obtain heq | hp := List.mem_cons.mp hp
    · rw [heq]
      exact induct list object scalar d
    · exact inductFields list object scalar fields p hp

end

end

theorem nodes_of_scalar {e : Estree} (he : e.isScalar = true) : e.nodes = [] := by
  cases e with
  | list | object => cases he
  | _ => rfl

theorem get_cases (fields : List (String × Estree)) (key : String) :
    (Estree.object fields).get key = .null ∨ ∃ p ∈ fields, (Estree.object fields).get key = p.2 := by
  rw [get]
  cases hfind : fields.find? (·.1 == key) with
  | none => exact .inl rfl
  | some p => exact .inr ⟨p, List.mem_of_find?_eq_some hfind, rfl⟩

theorem nodes_get_subset (fields : List (String × Estree)) (key : String) :
    ((Estree.object fields).get key).nodes ⊆ (Estree.object fields).nodes := by
  obtain hnull | ⟨p, hp, hget⟩ := get_cases fields key
  · rw [hnull]
    exact List.nil_subset _
  · rw [hget, nodes_object]
    intro e he
    exact List.mem_append_right _ (List.mem_flatMap.mpr ⟨p, hp, he⟩)

theorem mem_nodes_self {fields : List (String × Estree)}
    (hkind : (kindOf (.object fields)).isForeign = false) :
    Estree.object fields ∈ (Estree.object fields).nodes := by
  have hnode : (Estree.object fields).isNode = true := by
    rw [isNode, List.any_eq_true]
    cases hfind : fields.find? (·.1 == "type") with
    | some p => exact ⟨p, List.mem_of_find?_eq_some hfind, by simpa using List.find?_some hfind⟩
    | none =>
      have htype : (Estree.object fields).get "type" = .null := by
        rw [get, hfind]
        rfl
      rw [kindOf, htype] at hkind
      cases hkind
  rw [nodes_object, if_pos hnode]
  exact List.mem_append_left _ (List.mem_singleton_self _)

theorem nodes_subset_nodes (e : Estree) : ∀ d ∈ e.nodes, d.nodes ⊆ e.nodes := by
  induction e with
  | list items ih =>
    intro d hd
    rw [nodes_list] at hd ⊢
    obtain ⟨e, he, hd⟩ := List.mem_flatMap.mp hd
    exact fun c hc => List.mem_flatMap.mpr ⟨e, he, ih e he d hd hc⟩
  | scalar e he =>
    intro d hd
    rw [nodes_of_scalar he] at hd
    cases hd
  | object fields ih =>
    intro d hd
    rw [nodes_object, List.mem_append] at hd
    obtain hself | hd := hd
    · split at hself
      · cases List.mem_singleton.mp hself
        exact List.Subset.refl _
      · cases hself
    · obtain ⟨p, hp, hd⟩ := List.mem_flatMap.mp hd
      rw [nodes_object]
      exact fun c hc => List.mem_append_right _ (List.mem_flatMap.mpr ⟨p, hp, ih p hp d hd hc⟩)

/-! The statement at the end of a statement. -/

def OpenIf (e : Estree) : Prop := kindOf e = .ifStatement ∧ e.get "alternate" = .null

def bodied : List Kind := [.whileStatement, .forStatement, .forInStatement, .labeledStatement]

/-- The statement that a statement of nested statements ends in. -/
inductive Trails : Estree → Estree → Prop
  | alternate {e : Estree} : kindOf e = .ifStatement → e.get "alternate" ≠ .null →
    Trails e (e.get "alternate")
  | consequent {e : Estree} : OpenIf e → Trails e (e.get "consequent")
  | body {e : Estree} : kindOf e ∈ bodied → Trails e (e.get "body")

def EndsOpen (e : Estree) : Prop := ∃ inner, Relation.ReflTransGen Trails e inner ∧ OpenIf inner

/-- An `if` with `else` whose consequent would take the `else` for itself. -/
def Dangling (e : Estree) : Prop :=
  kindOf e = .ifStatement ∧ e.get "alternate" ≠ .null ∧ EndsOpen (e.get "consequent")

theorem EndsOpen.trans {e last : Estree} (h : Trails e last) : EndsOpen last → EndsOpen e
  | ⟨inner, hinner, hopen⟩ => ⟨inner, .head h hinner, hopen⟩

theorem OpenIf.endsOpen {e : Estree} (h : OpenIf e) : EndsOpen e := ⟨e, .refl, h⟩

/-! How the statements of data nest. -/

def nestingBy (e : Estree) (follow : String → Nesting) : Nesting :=
  match kindOf e with
  | .program | .blockStatement => .block (follow "body").items
  | .ifStatement =>
    match e.get "alternate" with
    | .null => .choose (e.get "test") (follow "consequent")
    | _ => .chooseElse (e.get "test") (follow "consequent") (follow "alternate")
  | .whileStatement => .headed .whileStatement [e.get "test"] (follow "body")
  | .forStatement =>
    .headed .forStatement [e.get "init", e.get "test", e.get "update"] (follow "body")
  | .forInStatement => .headed .forInStatement [e.get "left", e.get "right"] (follow "body")
  | .labeledStatement => .headed .labeledStatement [e.get "label"] (follow "body")
  | .doWhileStatement => .doWhile (follow "body") (e.get "test")
  | _ => .plain e

/-- How the statements of data nest. A list counts as what stands between braces. -/
def nesting : Estree → Nesting :=
  fold fun e below =>
    match below with
    | .list items => .block (items.map (·.2))
    | .object fields =>
      nestingBy e fun key => ((fields.find? (·.1 == key)).map (·.2.2)).getD (.plain .null)
    | .scalar => .plain e

theorem nesting_list (items : List Estree) : (Estree.list items).nesting = .block (items.map nesting) := by
  unfold nesting
  rw [fold, foldItems_eq]
  dsimp only
  rw [List.map_map]
  rfl

theorem nesting_object (fields : List (String × Estree)) :
    (Estree.object fields).nesting =
      nestingBy (.object fields) fun key => ((Estree.object fields).get key).nesting := by
  conv_lhs => unfold nesting
  rw [fold, foldFields_eq]
  refine congrArg (nestingBy (.object fields)) (funext fun key => ?_)
  rw [List.find?_map, get, Option.map_map]
  cases hfind : fields.find? ((·.1 == key) ∘ fun p => (p.1, p.2, fold _ p.2)) with
  | none =>
    have hfind' : fields.find? (·.1 == key) = none := hfind
    rw [hfind']
    rfl
  | some p =>
    have hfind' : fields.find? (·.1 == key) = some p := hfind
    rw [hfind']
    rfl

theorem nesting_scalar {e : Estree} (he : e.isScalar = true) : e.nesting = .plain e := by
  cases e with
  | list | object => cases he
  | _ => rfl

theorem endsOpen_of_nesting (e : Estree) : e.nesting.endsOpen = true → EndsOpen e := by
  induction e with
  | list items ih =>
    intro h
    rw [nesting_list] at h
    cases h
  | scalar e he =>
    intro h
    rw [nesting_scalar he] at h
    cases h
  | object fields ih =>
    have hfield (key : String) (h : ((Estree.object fields).get key).nesting.endsOpen = true) :
        EndsOpen ((Estree.object fields).get key) := by
      obtain hnull | ⟨p, hp, hget⟩ := get_cases fields key
      · rw [hnull] at h
        cases h
      · rw [hget] at h ⊢
        exact ih p hp h
    intro h
    rw [nesting_object] at h
    generalize Estree.object fields = e at hfield h
    have hbody (hkind : kindOf e ∈ bodied) (h : (e.get "body").nesting.endsOpen = true) : EndsOpen e :=
      .trans (.body hkind) (hfield "body" h)
    unfold nestingBy at h
    cases hkind : kindOf e <;> rw [hkind] at h hbody
    case ifStatement =>
      dsimp only at h
      split at h
      · rename_i halternate
        exact OpenIf.endsOpen ⟨hkind, halternate⟩
      · rename_i halternate
        exact .trans (.alternate hkind halternate) (hfield "alternate" h)
    case whileStatement | forStatement | forInStatement | labeledStatement =>
      exact hbody (by decide) h
    all_goals cases h

theorem clear_nesting (e : Estree) : (∀ d ∈ e.nodes, ¬ Dangling d) → e.nesting.Clear := by
  induction e with
  | list items ih =>
    intro h
    rw [nodes_list] at h
    rw [nesting_list]
    refine Nesting.clearItems_iff.mpr fun item hitem => ?_
    obtain ⟨e, he, rfl⟩ := List.mem_map.mp hitem
    exact ih e he fun d hd => h d (List.mem_flatMap.mpr ⟨e, he, hd⟩)
  | scalar e he =>
    intro _
    rw [nesting_scalar he]
    trivial
  | object fields ih =>
    intro h
    have hfield (key : String) : ((Estree.object fields).get key).nesting.Clear := by
      obtain hnull | ⟨p, hp, hget⟩ := get_cases fields key
      · rw [hnull]
        trivial
      · have hsubset := nodes_get_subset fields key
        rw [hget] at hsubset ⊢
        exact ih p hp fun d hd => h d (hsubset hd)
    have hself (hkind : kindOf (.object fields) = .ifStatement) : ¬ Dangling (.object fields) := by
      refine h _ (mem_nodes_self ?_)
      rw [hkind]
      rfl
    rw [nesting_object]
    generalize Estree.object fields = e at hfield hself
    unfold nestingBy
    cases hkind : kindOf e
    case ifStatement =>
      dsimp only
      split
      · exact hfield "consequent"
      · rename_i halternate
        refine ⟨Bool.eq_false_iff.mpr fun hopen => ?_, hfield "consequent", hfield "alternate"⟩
        exact hself hkind ⟨hkind, halternate, endsOpen_of_nesting _ hopen⟩
    case program | blockStatement => exact (hfield "body").items
    case whileStatement | forStatement | forInStatement | labeledStatement | doWhileStatement =>
      exact hfield "body"
    all_goals trivial

/-- Where no consequent dangles the tokens of a statement are read back as the statement nests. -/
theorem parse_nesting {e : Estree} (he : ∀ d ∈ e.nodes, ¬ Dangling d) {rest : List Nesting.Token}
    (hrest : rest.head? ≠ some .else) :
    Nesting.parse (e.nesting.tokens ++ rest) = some (e.nesting, rest) :=
  Nesting.parse_tokens (clear_nesting e he) hrest

end Unravel.Estree
