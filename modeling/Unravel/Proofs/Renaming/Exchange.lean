import Mathlib.Logic.Equiv.Basic
import Unravel.Proofs.Renaming.Spelled
import Unravel.Proofs.Tree.Names

/-! Renaming as an exchange of names. In a tree without the new name, and with the old one nowhere as a
fixed name, renaming exchanges the two. -/

namespace Unravel

open Node

abbrev exchange (a b : String) : String → String := Equiv.swap a b

theorem exchange_involutive (a b : String) : Function.Involutive (exchange a b) := by
  intro x
  exact Equiv.swap_apply_self a b x

theorem exchange_of_ne {a b x : String} (ha : x ≠ a) (hb : x ≠ b) : exchange a b x = x :=
  Equiv.swap_apply_of_ne_of_ne ha hb

def renameTo (old new name : String) : String := if name = old then new else name

theorem exchange_eq_renameTo {old new name : String} (h : name ≠ new) :
    exchange old new name = renameTo old new name := by
  unfold renameTo
  split
  · rename_i hold
    rw [hold, exchange, Equiv.swap_apply_left]
  · rename_i hold
    exact exchange_of_ne hold h

/-- A name that rules know only as one among others. -/
def Settings.Free (settings : Settings) (name : String) : Prop :=
  name ≠ "arguments" ∧ name ∉ settings.deferredCallees ∧ name ∉ settings.prunedNames

instance (settings : Settings) : DecidablePred settings.Free := fun name =>
  inferInstanceAs (Decidable (name ≠ "arguments" ∧ name ∉ settings.deferredCallees ∧
    name ∉ settings.prunedNames))

theorem contains_exchange {names : List String} {a b : String} (ha : a ∉ names) (hb : b ∉ names)
    (x : String) : names.contains (exchange a b x) = names.contains x := by
  by_cases hxa : x = a
  · rw [hxa, exchange, Equiv.swap_apply_left, List.contains_eq_mem, List.contains_eq_mem]
    simp [ha, hb]
  by_cases hxb : x = b
  · rw [hxb, exchange, Equiv.swap_apply_right, List.contains_eq_mem, List.contains_eq_mem]
    simp [ha, hb]
  rw [exchange_of_ne hxa hxb]

theorem Settings.Free.fair {settings : Settings} {a b : String} (ha : settings.Free a)
    (hb : settings.Free b) : Fair (exchange a b) settings where
  involutive := exchange_involutive a b
  arguments := exchange_of_ne ha.1.symm hb.1.symm
  deferred := contains_exchange ha.2.1 hb.2.1
  pruned := contains_exchange ha.2.2 hb.2.2

namespace Node

variable {ν : String → String} {N : String → Prop} {old new : String}

theorem names_mapNames (n : Node) : (n.mapNames ν).names = n.names.map ν := by
  rw [names, walk_mapNames, List.filterMap_map, names, List.map_filterMap]
  congr 1
  funext c
  exact name?_mapNames c

theorem mapNames_eq_self {n : Node} (h : ∀ name ∈ n.names, ν name = name) : n.mapNames ν = n := by
  have hall : n.Every fun c => ∀ name, c.name? = some name → ν name = name :=
    fun c hc name hname => h name (List.mem_filterMap.mpr ⟨c, hc, hname⟩)
  clear h
  induction n with
  | h t hd ss ih =>
    have hchild (c : Node) (hc : c ∈ childrenOf ss) : c.mapNames ν = c := ih c hc (hall.child hc)
    have hslots : ss.map (Slot.mapNames ν) = ss := by
      refine (List.map_congr_left fun s hs => ?_).trans (List.map_id ss)
      match s with
      | .one none => rfl
      | .one (some c) =>
        have hc : c ∈ childrenOf ss := List.mem_flatMap.mpr ⟨_, hs, by simp⟩
        rw [Slot.mapNames_one, Option.map_some, hchild c hc, id]
      | .many cs =>
        refine congrArg Slot.many ((List.map_congr_left fun c hc => ?_).trans (List.map_id cs))
        cases c with
        | none => rfl
        | some c =>
          have hc : c ∈ childrenOf ss := List.mem_flatMap.mpr ⟨_, hs, by simpa using hc⟩
          rw [Option.map_some, hchild c hc, id]
    have hhead : hd.mapNames ν = hd := by
      cases hd with
      | identifier name => exact congrArg Head.identifier (hall.self name rfl)
      | _ => rfl
    rw [mapNames_mk, hslots, hhead]

/-! Where renaming leaves a name alone. -/

def fixedName? (n : Node) : Option String :=
  match n.fixedHead? with
  | some (.identifier name) => some name
  | _ => none

/-- The names of properties that are not computed, of keys and of labels. -/
def fixedNames (n : Node) : List String := n.walk.filterMap fixedName?

def hasPlainKey : Node → Bool
  | .mk _ (.property false) (.one (some key) :: _) => key.kind == .identifier || key.kind == .literal
  | _ => true

/-- Every slot holds a node of a kind that its field allows: what the grammar demands, and for the
key of a property that is not computed an identifier or a literal. -/
def Regular (n : Node) : Prop := n.Conforms ∧ n.hasPlainKey = true

instance : DecidablePred Regular := fun n =>
  inferInstanceAs (Decidable (n.Conforms ∧ n.hasPlainKey = true))

theorem exists_of_forall₂_getElem? {α β : Type} {R : α → β → Prop} {as : List α} {bs : List β}
    (h : List.Forall₂ R as bs) {i : Nat} {b : β} (hb : bs[i]? = some b) :
    ∃ a, as[i]? = some a ∧ R a b := by
  induction h generalizing i with
  | nil => cases hb
  | cons hab _ ih =>
    cases i with
    | zero =>
      cases hb
      exact ⟨_, rfl, hab⟩
    | succ i => exact ih hb

theorem exists_demand_of_getElem? {n : Node} (hn : n.Conforms) {i : Nat} {s : Slot Node}
    (hs : n.slots[i]? = some s) : ∃ d, n.head.demands[i]? = some d ∧ d.admits s = true :=
  exists_of_forall₂_getElem? hn hs

theorem demand_of_fixedSlot? {h : Head} {i : Nat} {d : Demand} (hslot : h.fixedSlot? = some i)
    (hd : h.demands[i]? = some d) :
    (∃ r, d = .one r ∨ d = .maybe r) ∧ (h = .property false ∨ d.role = .name) := by
  unfold Head.fixedSlot? at hslot
  split at hslot <;> cases hslot <;> cases hd
  · exact ⟨⟨_, .inl rfl⟩, .inr rfl⟩
  · exact ⟨⟨_, .inl rfl⟩, .inl rfl⟩
  · exact ⟨⟨_, .inl rfl⟩, .inr rfl⟩
  · exact ⟨⟨_, .inr rfl⟩, .inr rfl⟩
  · exact ⟨⟨_, .inr rfl⟩, .inr rfl⟩

theorem exists_of_fixedHead? {n : Node} {hd : Head} (h : n.fixedHead? = some hd) :
    ∃ i c, n.head.fixedSlot? = some i ∧ n.slots[i]? = some (.one (some c)) ∧ c.head = hd := by
  obtain ⟨i, hi, hrest⟩ := Option.bind_eq_some_iff.mp h
  rw [List.getElem?_map] at hrest
  refine ⟨i, ?_⟩
  match hs : n.slots[i]? with
  | none => rw [hs] at hrest; cases hrest
  | some (.many cs) => rw [hs] at hrest; cases hrest
  | some (.one none) => rw [hs] at hrest; cases hrest
  | some (.one (some c)) =>
    rw [hs] at hrest
    exact ⟨c, hi, rfl, Option.some.inj hrest⟩

theorem Regular.spelled {n : Node} (h : n.Regular) (hN : ∀ name, n.fixedName? = some name → ¬ N name) :
    n.Spelled N := by
  intro hd hhead
  obtain ⟨i, c, hslot, hc, rfl⟩ := exists_of_fixedHead? hhead
  obtain ⟨d, hd, hadmits⟩ := exists_demand_of_getElem? h.1 hc
  have hkind : c.kind = .identifier ∨ c.kind = .literal := by
    rcases (demand_of_fixedSlot? hslot hd).2 with hproperty | hrole
    · have hkey := h.2
      obtain ⟨t, hd, ss⟩ := n
      cases hproperty
      cases hslot
      cases ss with
      | nil => cases hc
      | cons s ss =>
        cases hc
        simpa [hasPlainKey] using hkey
    · have hname := Demand.role_of_admits_one hadmits
      rw [hrole] at hname
      exact .inl (beq_iff_eq.mp hname)
  obtain ⟨u, hc', ss'⟩ := c
  cases hc' with
  | identifier name =>
    refine hN name ?_
    rw [fixedName?, hhead]
    rfl
  | literal v => trivial
  | _ => rcases hkind with hkind | hkind <;> cases hkind

theorem every_spelled {tree : Node} (h : tree.Every Regular) (hN : ∀ name ∈ tree.fixedNames, ¬ N name) :
    tree.Every (Spelled N) := fun n hn =>
  (h n hn).spelled fun name hname => hN name (List.mem_filterMap.mpr ⟨n, hn, hname⟩)

theorem fixedNames_subset (tree : Node) : tree.fixedNames ⊆ tree.names := by
  intro name hname
  obtain ⟨n, hn, hfixed⟩ := List.mem_filterMap.mp hname
  unfold fixedName? at hfixed
  split at hfixed
  · rename_i hhead
    cases hfixed
    obtain ⟨i, c, -, hc, heq⟩ := exists_of_fixedHead? hhead
    obtain ⟨t, h, ss⟩ := n
    have hbelow : c ∈ (Node.mk t h ss).walk := mem_walk_of_slot (List.mem_of_getElem? hc)
    refine List.mem_filterMap.mpr ⟨c, walk_subset_walk tree hn hbelow, ?_⟩
    obtain ⟨u, hd, ss'⟩ := c
    cases heq
    rfl
  · cases hfixed

theorem fixedSlot?_of_isFixedName {h : Head} {i : Nat}
    (hfixed : (h.kind.fields[i]?.map (⟨h, ·⟩)).any Seat.isFixedName = true) :
    h.fixedSlot? = some i ∨ h = .labeledStatement ∧ i = 1 := by
  rcases i with _ | _ | _ | _ | i <;> cases h <;> try cases hfixed
  all_goals try first | exact .inl rfl | exact .inr ⟨rfl, rfl⟩
  all_goals
    rename_i computed
    cases computed with
    | false => exact .inl rfl
    | true => cases hfixed

theorem head_of_name? {c : Node} {name : String} (h : c.name? = some name) :
    c.head = .identifier name := by
  obtain ⟨t, hd, ss⟩ := c
  cases hd <;> cases h
  rfl

theorem name?_ne_of_isFixedName {t : Tag} {h : Head} {ss : List (Slot Node)}
    (hconforms : (Node.mk t h ss).Conforms) (hspelled : (Node.mk t h ss).Spelled N) {i : Nat}
    {s : Slot Node} (hs : ss[i]? = some s) {c : Node} (hc : c ∈ s.children)
    (hfixed : (h.kind.fields[i]?.map (⟨h, ·⟩)).any Seat.isFixedName = true) {name : String}
    (hname : N name) : c.name? ≠ some name := by
  obtain ⟨d, hd, hadmits⟩ := exists_demand_of_getElem? hconforms hs
  intro heq
  have hhead := head_of_name? heq
  rcases fixedSlot?_of_isFixedName hfixed with hslot | ⟨rfl, rfl⟩
  · have hone : s = .one (some c) := by
      obtain ⟨r, rfl | rfl⟩ := (demand_of_fixedSlot? hslot hd).1 <;>
      · cases s with
        | one child => exact congrArg Slot.one (Slot.mem_children_one.mp hc)
        | many cs => cases hadmits
    have hspells : (Head.identifier name).Spells N := by
      refine hspelled _ ?_
      rw [fixedHead?_mk, hslot, Option.bind_some, List.getElem?_map, hs, hone, ← hhead]
      rfl
    exact hspells hname
  · cases hd
    cases s with
    | one child =>
      cases Slot.mem_children_one.mp hc
      have hkind : c.kind.isStatement = true := hadmits
      rw [kind, hhead] at hkind
      cases hkind
    | many cs => cases hadmits

def respelling (old new : String) : Relabel Nat := fun seat t h count =>
  match h with
  | .identifier name =>
    if name == old && !seat.any Seat.isFixedName then ((t, .identifier new), count + 1)
    else ((t, h), count)
  | _ => ((t, h), count)

structure Renamable (N : String → Prop) (new : String) (n : Node) : Prop where
  conforms : n.Conforms
  spelled : n.Spelled N
  fresh : n.name? ≠ some new

theorem head_respelling {seat : Option Seat} {t : Tag} {h : Head} {ss : List (Slot Node)}
    (count : Nat) (hnew : (Node.mk t h ss).name? ≠ some new)
    (hold : seat.any Seat.isFixedName = true → (Node.mk t h ss).name? ≠ some old) :
    (respelling old new seat t h count).1 = (t, h.mapNames (exchange old new)) := by
  cases h with
  | identifier name =>
    have hne : name ≠ new := fun heq => hnew (congrArg some heq)
    simp only [respelling, Head.mapNames, exchange_eq_renameTo hne, renameTo]
    by_cases hname : name = old
    · have hopen : seat.any Seat.isFixedName = false := by
        rw [← Bool.not_eq_true]
        exact fun hfixed => hold hfixed (congrArg some hname)
      simp [hname, hopen]
    · simp [hname]
  | _ => rfl

mutual

theorem relabel_respelling (hN : N old) (seat : Option Seat) : (n : Node) → (count : Nat) →
    n.Every (Renamable N new) → (seat.any Seat.isFixedName = true → n.name? ≠ some old) →
    (relabel (respelling old new) seat n count).1 = n.mapNames (exchange old new)
  | .mk t h ss, count, hn, hold => by
    obtain ⟨hself, hss⟩ := every_mk.mp hn
    obtain ⟨htag, hhead⟩ := Prod.ext_iff.mp (head_respelling count hself.fresh hold)
    simp only [relabel, mapNames]
    rw [htag, hhead, relabelSlots_respelling hN h h.kind.fields ss _ hss fun i s c hs hc hfixed =>
      name?_ne_of_isFixedName hself.conforms hself.spelled hs hc hfixed hN]

theorem relabelSlots_respelling (hN : N old) (h : Head) (fs : List Field) :
    (ss : List (Slot Node)) → (count : Nat) → EverySlots (Renamable N new) ss →
    (∀ (i : Nat) (s : Slot Node) (c : Node), ss[i]? = some s → c ∈ s.children →
      (fs[i]?.map (⟨h, ·⟩)).any Seat.isFixedName = true → c.name? ≠ some old) →
    (relabelSlots (respelling old new) h fs ss count).1 = mapNamesSlots (exchange old new) ss
  | [], _, _, _ => rfl
  | s :: ss, count, hss, hold => by
    have hlater (count : Nat) (hss : EverySlots (Renamable N new) ss) :
        (relabelSlots (respelling old new) h fs.tail ss count).1 =
          mapNamesSlots (exchange old new) ss := by
      refine relabelSlots_respelling hN h fs.tail ss count hss fun i s c hs hc hfixed => ?_
      rw [List.getElem?_tail] at hfixed
      exact hold (i + 1) s c hs hc hfixed
    have hfirst (c : Node) (hc : c ∈ s.children)
        (hfixed : (fs.head?.map (⟨h, ·⟩)).any Seat.isFixedName = true) : c.name? ≠ some old := by
      rw [List.head?_eq_getElem?] at hfixed
      exact hold 0 s c rfl hc hfixed
    match s, hss, hfirst with
    | .one none, hss, _ => simp only [relabelSlots, mapNamesSlots, hlater _ hss]
    | .one (some c), hss, hfirst =>
      obtain ⟨hc, hss⟩ := everySlots_one.mp hss
      simp only [relabelSlots, mapNamesSlots, hlater _ hss]
      rw [relabel_respelling hN _ c _ hc (hfirst c (by simp))]
    | .many cs, hss, hfirst =>
      obtain ⟨hcs, hss⟩ := everySlots_many.mp hss
      simp only [relabelSlots, mapNamesSlots, hlater _ hss]
      rw [relabelItems_respelling hN _ cs _ hcs fun c hc => hfirst c (by simpa using hc)]

theorem relabelItems_respelling (hN : N old) (seat : Option Seat) : (cs : List (Option Node)) →
    (count : Nat) → EveryItems (Renamable N new) cs →
    (∀ c, some c ∈ cs → seat.any Seat.isFixedName = true → c.name? ≠ some old) →
    (relabelItems (respelling old new) seat cs count).1 = mapNamesItems (exchange old new) cs
  | [], _, _, _ => rfl
  | none :: cs, count, hcs, hold => by
    simp only [relabelItems, mapNamesItems]
    rw [relabelItems_respelling hN seat cs count hcs fun c hc => hold c (List.mem_cons_of_mem _ hc)]
  | some c :: cs, count, hcs, hold => by
    obtain ⟨hc, hcs⟩ := everyItems_some.mp hcs
    simp only [relabelItems, mapNamesItems]
    rw [relabel_respelling hN seat c count hc (hold c (List.mem_cons_self ..)),
      relabelItems_respelling hN seat cs _ hcs fun c hc => hold c (List.mem_cons_of_mem _ hc)]

end

theorem rename_eq_mapNames (hN : N old) {n : Node} (hconforms : n.WellKinded)
    (hspelled : n.Every (Spelled N)) (hnew : new ∉ n.names) :
    (n.rename old new).1 = n.mapNames (exchange old new) := by
  refine relabel_respelling hN none n 0 (fun c hc => ⟨hconforms c hc, hspelled c hc, ?_⟩) nofun
  exact fun hname => hnew (List.mem_filterMap.mpr ⟨c, hc, hname⟩)

end Node
end Unravel
