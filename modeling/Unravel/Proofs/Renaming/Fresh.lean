import Mathlib.Data.Fintype.EquivFin
import Unravel.Proofs.Renaming.Written

/-! Renaming to a name that no identifier has. It changes the names that it counts and no others,
the written names change with it, it can be taken back, and two such renamings change places. -/

namespace Unravel

open Node

/-- Whether a name here is a label, or a property or key that is not computed. -/
def Seat.isPlainName (s : Seat) : Bool :=
  s == ⟨.memberExpression false, .property⟩ || s == ⟨.property false, .key⟩ || s.field == .label

namespace Node

variable {t : Node} {old new : String}

/-- The names of the identifiers in their order, each with whether it is plain. -/
def spellings (t : Node) : List (String × Bool) :=
  (t.seated none).filterMap (spelledAt Seat.isPlainName)

def nameless (t : Node) : Node := t.mapNames fun _ => ""

/-! In a well-kinded tree the plain names are the ones that renaming leaves alone. -/

theorem isPlainName_of_slot (h : Head) (i : Nat) :
    (h.kind.fields[i]?.map (⟨h, ·⟩)).any Seat.isPlainName =
        (h.kind.fields[i]?.map (⟨h, ·⟩)).any Seat.isFixedName ∨
      h = .labeledStatement ∧ i = 1 := by
  rcases i with _ | _ | _ | _ | i <;> cases h <;> try exact .inl rfl
  case succ.zero.labeledStatement => exact .inr ⟨rfl, rfl⟩
  all_goals
    rename_i computed
    cases computed <;> exact .inl rfl

theorem spelledAt_of_seatedIn {o c : Node} {seat : Option Seat} (ho : o.Conforms)
    (hin : o.SeatedIn c seat) :
    spelledAt Seat.isPlainName (c, seat) = spelledAt Seat.isFixedName (c, seat) := by
  obtain ⟨i, s, hs, hc, rfl⟩ := hin
  rcases isPlainName_of_slot o.head i with hsame | ⟨hlabel, rfl⟩
  · exact congrArg (fun flag => c.name?.map (·, flag)) hsame
  · obtain ⟨d, hd, hadmits⟩ := exists_demand_of_getElem? ho hs
    rw [hlabel] at hd
    cases hd
    cases s with
    | many cs => cases hadmits
    | one child =>
      cases Slot.mem_children_one.mp hc
      have hkind : c.kind.isStatement = true := hadmits
      obtain ⟨u, h, ss⟩ := c
      cases h <;> first | rfl | cases hkind

theorem spellings_eq (ht : t.WellKinded) :
    t.spellings = (t.seated none).filterMap (spelledAt Seat.isFixedName) := by
  refine List.filterMap_congr fun p hp => ?_
  obtain ⟨c, seat⟩ := p
  rcases seat_of_mem_seated none t hp with ⟨-, rfl⟩ | ⟨o, ho, hin⟩
  · rfl
  · exact spelledAt_of_seatedIn (ht o ho) hin

/-! Renaming changes what it counts. -/

theorem nameless_respell (ν : String → String) (fixed : Bool) (n : Node) :
    (n.respell ν fixed).nameless = n.nameless := by
  unfold nameless
  induction n generalizing fixed with
  | h u h ss ih =>
    have hhead : (if fixed then h else h.mapNames ν).mapNames (fun _ => "") =
        h.mapNames fun _ => "" := by
      cases fixed with
      | true => rfl
      | false => cases h <;> rfl
    have hslots := Slot.Rel.map_view_eq (g := mapNames fun _ => "")
      (rel_respellSlots h h.kind.fields ih) fun _ _ _ hsame => hsame
    rw [respell, mapNames_mk, mapNames_mk, hhead, hslots]

theorem wellKinded_rename (ht : t.WellKinded) : (t.rename old new).1.WellKinded := by
  rw [rename_eq_respell]
  exact ht.respell false

theorem spellings_rename (ht : t.WellKinded) : (t.rename old new).1.spellings =
    t.spellings.map (respelt (renameTo old new)) := by
  rw [spellings_eq (wellKinded_rename ht), spellings_eq ht, rename_eq_respell]
  exact spelled_respell none none rfl t

theorem count_rename (ht : t.WellKinded) :
    (t.rename old new).2 = t.spellings.count (old, false) := by
  rw [rename_eq_respell, spellings_eq ht, List.count_filterMap]
  rfl

theorem count_respelt {ν : String → String} {ps : List (String × Bool)} {name name' : String}
    (hν : ∀ p ∈ ps, ν p.1 = name' ↔ p.1 = name) :
    (ps.map (respelt ν)).count (name', false) = ps.count (name, false) := by
  unfold List.count
  rw [List.countP_map]
  refine List.countP_congr fun p hp => ?_
  obtain ⟨x, fixed⟩ := p
  cases fixed with
  | true => simp [respelt]
  | false => simpa [respelt] using hν _ hp

theorem mem_walk_of_seated {c : Node} {seat seat' : Option Seat}
    (hc : (c, seat') ∈ t.seated seat) : c ∈ t.walk := by
  rcases seat_of_mem_seated seat t hc with ⟨rfl, -⟩ | ⟨o, ho, i, s, hs, hchild, -⟩
  · exact c.self_mem_walk
  · obtain ⟨u, h, ss⟩ := o
    refine walk_subset_walk t ho (List.mem_cons_of_mem _ ?_)
    rw [walkSlots_eq]
    exact List.mem_flatMap.mpr
      ⟨c, List.mem_flatMap.mpr ⟨s, List.mem_of_getElem? hs, hchild⟩, c.self_mem_walk⟩

theorem fst_mem_names {p : String × Bool} (hp : p ∈ t.spellings) : p.1 ∈ t.names := by
  obtain ⟨⟨c, seat⟩, hc, hspelled⟩ := List.mem_filterMap.mp hp
  obtain ⟨name, hname, rfl⟩ := Option.map_eq_some_iff.mp hspelled
  exact List.mem_filterMap.mpr ⟨c, mem_walk_of_seated hc, hname⟩

/-! The written names change with the tree. -/

theorem mutatedNames_subset (ht : t.WellKinded) {names : List String}
    (hnames : t.mutatedNames = .ok names) : names ⊆ t.names := by
  intro x hx
  by_contra hout
  obtain ⟨z, hz⟩ := Infinite.exists_notMem_finset (x :: t.names).toFinset
  rw [List.mem_toFinset, List.mem_cons, not_or] at hz
  have hsame : t.respell (exchange x z) false = t := by
    have hfixed : ∀ name ∈ t.names, exchange x z name = id name := fun name hname =>
      exchange_of_ne (ne_of_mem_of_not_mem hname hout) (ne_of_mem_of_not_mem hname hz.2)
    rw [respell_congr false t hfixed, respell_id]
  obtain ⟨names', hbefore, hafter⟩ :=
    mutatedNames_respell (exchange_involutive x z).injective ht
  rw [hsame, hbefore] at hafter
  rw [hnames] at hbefore
  cases hbefore
  have hmap : names.map (exchange x z) = names.map id := by
    rw [List.map_id]
    exact (Except.ok.inj hafter).symm
  have hself : exchange x z x = x := List.map_inj_left.mp hmap x hx
  rw [exchange, Equiv.swap_apply_left] at hself
  exact hz.1 hself

theorem mutatedNames_rename (ht : t.WellKinded) (hnew : new ∉ t.names) :
    ∃ names, t.mutatedNames = .ok names ∧
      (t.rename old new).1.mutatedNames = .ok (names.map (renameTo old new)) := by
  -- the new name is nowhere, so the two names may as well be exchanged
  have hexchange : ∀ name ∈ t.names, renameTo old new name = exchange old new name :=
    fun name hname => (exchange_eq_renameTo (ne_of_mem_of_not_mem hname hnew)).symm
  obtain ⟨names, hbefore, hafter⟩ :=
    mutatedNames_respell (exchange_involutive old new).injective ht
  refine ⟨names, hbefore, ?_⟩
  have hmap : names.map (renameTo old new) = names.map (exchange old new) :=
    List.map_congr_left fun name hname =>
      hexchange name (mutatedNames_subset ht hbefore hname)
  rw [rename_eq_respell, respell_congr false t hexchange, hafter, hmap]

/-! Renamings are taken back and change places. -/

theorem renameTo_back {x : String} (hx : x ≠ new) : renameTo new old (renameTo old new x) = x := by
  unfold renameTo
  by_cases hold : x = old
  · simp [hold]
  · simp [hold, hx]

theorem renameTo_comm {old' new' : String} (hdistinct : [old, new, old', new'].Nodup)
    (x : String) :
    renameTo old' new' (renameTo old new x) = renameTo old new (renameTo old' new' x) := by
  unfold renameTo
  grind

theorem rename_back (ht : t.WellKinded) (hnew : new ∉ t.names) :
    (t.rename old new).1.rename new old = (t, (t.rename old new).2) := by
  have htree : ((t.rename old new).1.rename new old).1 = t := by
    rw [rename_eq_respell, rename_eq_respell, respell_respell]
    have hback : ∀ name ∈ t.names, (renameTo new old ∘ renameTo old new) name = id name :=
      fun name hname => renameTo_back (ne_of_mem_of_not_mem hname hnew)
    rw [respell_congr false t hback, respell_id]
  have hcount : ((t.rename old new).1.rename new old).2 = (t.rename old new).2 := by
    rw [count_rename (wellKinded_rename ht), count_rename ht, spellings_rename ht]
    refine count_respelt fun p hp => ?_
    have hother : p.1 ≠ new := ne_of_mem_of_not_mem (fst_mem_names hp) hnew
    unfold renameTo
    split <;> simp_all
  exact Prod.ext htree hcount

theorem rename_comm (ht : t.WellKinded) {old' new' : String}
    (hdistinct : [old, new, old', new'].Nodup) :
    ((t.rename old new).1.rename old' new').1 = ((t.rename old' new').1.rename old new).1 ∧
      ((t.rename old new).1.rename old' new').2 = (t.rename old' new').2 := by
  constructor
  · simp only [rename_eq_respell, respell_respell]
    exact respell_congr false t fun name _ => renameTo_comm hdistinct name
  · rw [count_rename (wellKinded_rename ht), count_rename ht, spellings_rename ht]
    refine count_respelt fun p _ => ?_
    unfold renameTo
    grind

/-- Renaming to a name that no identifier has changes the names that are not plain, and as many as
it says; what is written changes with them. It can be taken back, and it does not matter which of
two such renamings comes first. -/
theorem rename_fresh (ht : t.WellKinded) (hnew : new ∉ t.names) :
    (t.rename old new).2 = t.spellings.count (old, false) ∧
      (t.rename old new).1.nameless = t.nameless ∧
      (t.rename old new).1.spellings = t.spellings.map (respelt (renameTo old new)) ∧
      (∃ names, t.mutatedNames = .ok names ∧
        (t.rename old new).1.mutatedNames = .ok (names.map (renameTo old new))) ∧
      (t.rename old new).1.rename new old = (t, (t.rename old new).2) ∧
      ∀ old' new', [old, new, old', new'].Nodup → new' ∉ t.names →
        ((t.rename old new).1.rename old' new').1 = ((t.rename old' new').1.rename old new).1 ∧
          ((t.rename old new).1.rename old' new').2 = (t.rename old' new').2 ∧
          ((t.rename old' new').1.rename old new).2 = (t.rename old new).2 := by
  have hshape : (t.rename old new).1.nameless = t.nameless := by
    rw [rename_eq_respell]
    exact nameless_respell _ false t
  refine ⟨count_rename ht, hshape, spellings_rename ht, mutatedNames_rename ht hnew,
    rename_back ht hnew, fun old' new' hdistinct _ => ?_⟩
  obtain ⟨htree, hcount⟩ := rename_comm ht hdistinct
  have hperm : ([old, new] ++ [old', new']).Perm ([old', new'] ++ [old, new]) :=
    List.perm_append_comm
  have hswapped : [old', new', old, new].Nodup := hperm.nodup_iff.mp hdistinct
  exact ⟨htree, hcount, (rename_comm ht hswapped).2⟩

/-- `x: x.x = { x: x[a] }; x.push(x);` -/
def labeledStore : Node :=
  let tag : Tag := ⟨none, none⟩
  let name (x : String) : Node := .identifier tag x
  let member (computed : Bool) (property : String) : Node :=
    .memberExpression tag computed (name "x") (name property)
  let pair : Node := .mk tag (.property false)
    [.one (some (name "x")), .one (some (member true "a"))]
  let store : Node := .assignmentExpression tag "=" (member false "x")
    (.mk tag .objectExpression [.many [some pair]])
  .program tag
    [some (.mk tag .labeledStatement
        [.one (some (name "x")), .one (some (.expressionStatement tag store))]),
      some (.expressionStatement tag (.callExpression tag (member false "push") [some (name "x")]))]

theorem labeledStore_rename : labeledStore.WellKinded ∧ "y" ∉ labeledStore.names ∧
    (labeledStore.rename "x" "y").2 = 4 ∧
    (labeledStore.rename "x" "y").1.mutatedNames = .ok ["y"] ∧
    (labeledStore.rename "x" "y").1.rename "y" "x" = (labeledStore, 4) ∧
    ((labeledStore.rename "x" "y").1.rename "a" "b").1 =
      ((labeledStore.rename "a" "b").1.rename "x" "y").1 := by
  have hkinds : labeledStore.WellKinded := by decide +kernel
  have hnew : "y" ∉ labeledStore.names := by decide +kernel
  obtain ⟨hcount, -, -, ⟨names, hnames, hafter⟩, hback, hcomm⟩ :=
    @rename_fresh labeledStore "x" "y" hkinds hnew
  have hfour : labeledStore.spellings.count ("x", false) = 4 := by decide +kernel
  have hwritten : labeledStore.mutatedNames = .ok ["x"] := by decide +kernel
  rw [hfour] at hcount
  rw [hwritten] at hnames
  cases hnames
  rw [hcount] at hback
  obtain ⟨htree, -, -⟩ := hcomm "a" "b" (by decide) (by decide +kernel)
  exact ⟨hkinds, hnew, hcount, hafter, hback, htree⟩

end Node
end Unravel
