import Mathlib.Data.List.Induction
import Mathlib.Data.List.Nodup
import Unravel.Proofs.Tree.Children

/-! Positions in a tree: the way down from the root, child by child. Nodes are listed in pre-order
when their positions come in order, a node before what lies below it and a child before its later
siblings, and no position comes twice. -/

namespace Unravel

abbrev Position := List Nat

/-- The first position lies above the second, or takes an earlier child where the two ways part. -/
abbrev Position.Before : Position → Position → Prop := List.Lex (· < ·)

namespace Node

def at? (n : Node) : Position → Option Node
  | [] => some n
  | i :: p => n.children[i]?.bind (·.at? p)

def Above (n : Node) (p : Position) (d : Node) : Prop := ∃ q, q <+: p ∧ q ≠ p ∧ n.at? q = some d

def Between (n : Node) (p : Position) (d : Node) : Prop :=
  ∃ q, q <+: p ∧ q ≠ p ∧ q ≠ [] ∧ n.at? q = some d

def OccursOnce (n : Node) : Prop := ∀ p q c, n.at? p = some c → n.at? q = some c → p = q

/-- The list holds the nodes at the positions with a property, each position once and in order. -/
def InPreorder (n : Node) (P : Position → Prop) (cs : List Node) : Prop :=
  ∃ ps : List Position, ps.Pairwise Position.Before ∧ (∀ p, p ∈ ps ↔ (n.at? p).isSome ∧ P p) ∧
    ps.map n.at? = cs.map some

variable {n c d : Node} {i : Nat} {p : Position}

@[simp] theorem at?_nil (n : Node) : n.at? [] = some n := rfl

theorem at?_cons (n : Node) (i : Nat) (p : Position) :
    n.at? (i :: p) = n.children[i]?.bind (·.at? p) := rfl

theorem at?_cons_eq_some :
    n.at? (i :: p) = some d ↔ ∃ c, n.children[i]? = some c ∧ c.at? p = some d :=
  Option.bind_eq_some_iff

theorem at?_cons_of_child (hc : n.children[i]? = some c) (p : Position) :
    n.at? (i :: p) = c.at? p := by
  rw [at?_cons, hc, Option.bind_some]

/-! The way to a position, one step further up. -/

theorem not_above_nil : ¬ n.Above [] d := by
  rintro ⟨q, hstart, hne, -⟩
  exact hne (List.prefix_nil.mp hstart)

theorem above_cons (hc : n.children[i]? = some c) :
    n.Above (i :: p) d ↔ n = d ∨ c.Above p d := by
  constructor
  · rintro ⟨_ | ⟨j, q⟩, hstart, hne, hat⟩
    · exact .inl (Option.some.inj hat)
    · obtain ⟨rfl, hq⟩ := List.cons_prefix_cons.mp hstart
      rw [at?_cons_of_child hc] at hat
      exact .inr ⟨q, hq, fun heq => hne (congrArg _ heq), hat⟩
  · rintro (rfl | ⟨q, hstart, hne, hat⟩)
    · exact ⟨[], List.nil_prefix, (List.cons_ne_nil i p).symm, rfl⟩
    · refine ⟨i :: q, List.cons_prefix_cons.mpr ⟨rfl, hstart⟩, ?_, ?_⟩
      · exact fun heq => hne (List.cons.inj heq).2
      · rwa [at?_cons_of_child hc]

theorem between_cons (hc : n.children[i]? = some c) : n.Between (i :: p) d ↔ c.Above p d := by
  constructor
  · rintro ⟨_ | ⟨j, q⟩, hstart, hne, hroot, hat⟩
    · exact absurd rfl hroot
    · obtain ⟨rfl, hq⟩ := List.cons_prefix_cons.mp hstart
      rw [at?_cons_of_child hc] at hat
      exact ⟨q, hq, fun heq => hne (congrArg _ heq), hat⟩
  · rintro ⟨q, hstart, hne, hat⟩
    refine ⟨i :: q, List.cons_prefix_cons.mpr ⟨rfl, hstart⟩, ?_, List.cons_ne_nil i q, ?_⟩
    · exact fun heq => hne (List.cons.inj heq).2
    · rwa [at?_cons_of_child hc]

/-! Lists in pre-order. -/

namespace InPreorder

variable {P Q : Position → Prop} {cs : List Node}

theorem mem_iff (h : n.InPreorder P cs) : c ∈ cs ↔ ∃ p, n.at? p = some c ∧ P p := by
  obtain ⟨ps, -, hmem, hmap⟩ := h
  have hlisted : c ∈ cs ↔ some c ∈ ps.map n.at? := by
    rw [hmap, List.mem_map]
    exact ⟨fun hc => ⟨c, hc, rfl⟩, fun ⟨_, hd, heq⟩ => Option.some.inj heq ▸ hd⟩
  rw [hlisted, List.mem_map]
  refine exists_congr fun p => ?_
  rw [hmem p]
  exact ⟨fun ⟨⟨_, hp⟩, hat⟩ => ⟨hat, hp⟩, fun ⟨hat, hp⟩ => ⟨⟨hat ▸ rfl, hp⟩, hat⟩⟩

theorem nodup (h : n.InPreorder P cs) (hn : n.OccursOnce) : cs.Nodup := by
  obtain ⟨ps, hsorted, hmem, hmap⟩ := h
  have hps : ps.Nodup := by
    refine hsorted.imp fun hlt => ?_
    rintro rfl
    exact List.lex_irrefl Nat.lt_irrefl _ hlt
  refine List.Nodup.of_map some ?_
  rw [← hmap]
  refine List.Nodup.map_on (fun p hp q _ heq => ?_) hps
  obtain ⟨c, hc⟩ := Option.isSome_iff_exists.mp ((hmem p).mp hp).1
  exact hn p q c hc (heq ▸ hc)

theorem cons (h : n.InPreorder (fun p => p ≠ [] ∧ P p) cs) (hroot : P []) :
    n.InPreorder P (n :: cs) := by
  obtain ⟨ps, hsorted, hmem, hmap⟩ := h
  have hbelow : ∀ p ∈ ps, Position.Before [] p := by
    intro p hp
    cases p with
    | nil => exact absurd rfl ((hmem []).mp hp).2.1
    | cons i p => exact List.Lex.nil
  refine ⟨[] :: ps, List.pairwise_cons.mpr ⟨hbelow, hsorted⟩, fun p => ?_, ?_⟩
  · cases p with
    | nil => exact iff_of_true (List.mem_cons_self ..) ⟨rfl, hroot⟩
    | cons i p => simp [hmem]
  · rw [List.map_cons, List.map_cons, hmap, at?_nil]

end InPreorder

theorem inPreorder_nil {P : Position → Prop} (h : ∀ p, (n.at? p).isSome → ¬ P p) :
    n.InPreorder P [] := by
  refine ⟨[], List.Pairwise.nil, fun p => iff_of_false List.not_mem_nil ?_, rfl⟩
  exact fun hp => h p hp.1 hp.2

theorem inPreorder_below {f : Node → List Node} {P : Node → Position → Prop} {Q : Position → Prop}
    (h : ∀ c ∈ n.children, c.InPreorder (P c) (f c))
    (hQ : ∀ i c p, n.children[i]? = some c → (Q (i :: p) ↔ P c p)) :
    n.InPreorder (fun p => p ≠ [] ∧ Q p) (n.children.flatMap f) := by
  suffices hpart : ∀ cs rest, n.children = cs ++ rest → ∃ ps : List Position,
      ps.Pairwise Position.Before ∧
      (∀ p, p ∈ ps ↔ ∃ i q c, p = i :: q ∧ cs[i]? = some c ∧ (c.at? q).isSome ∧ P c q) ∧
      ps.map n.at? = (cs.flatMap f).map some by
    obtain ⟨ps, hsorted, hmem, hmap⟩ := hpart n.children [] (List.append_nil _).symm
    refine ⟨ps, hsorted, fun p => (hmem p).trans ?_, hmap⟩
    constructor
    · rintro ⟨i, q, c, rfl, hc, hsome, hP⟩
      exact ⟨by rwa [at?_cons_of_child hc], List.cons_ne_nil i q, (hQ i c q hc).mpr hP⟩
    · rintro ⟨hsome, hne, hp⟩
      obtain ⟨i, q, rfl⟩ := List.exists_cons_of_ne_nil hne
      obtain ⟨d, hd⟩ := Option.isSome_iff_exists.mp hsome
      obtain ⟨c, hc, hat⟩ := at?_cons_eq_some.mp hd
      exact ⟨i, q, c, rfl, hc, hat ▸ rfl, (hQ i c q hc).mp hp⟩
  intro cs
  induction cs using List.reverseRecOn with
  | nil => exact fun _ _ => ⟨[], List.Pairwise.nil, by simp, rfl⟩
  | append_singleton cs c ih =>
    intro rest hchildren
    have hsplit : n.children = cs ++ c :: rest := by
      rw [hchildren, List.append_assoc, List.singleton_append]
    have hc : n.children[cs.length]? = some c := by
      rw [hsplit, List.getElem?_append_right (Nat.le_refl _), Nat.sub_self, List.getElem?_cons_zero]
    obtain ⟨ps, hsorted, hmem, hmap⟩ := ih (c :: rest) hsplit
    obtain ⟨qs, hsorted', hmem', hmap'⟩ := h c (List.mem_of_getElem? hc)
    refine ⟨ps ++ qs.map (cs.length :: ·), ?_, fun p => ?_, ?_⟩
    · refine List.pairwise_append.mpr ⟨hsorted, ?_, ?_⟩
      · exact List.pairwise_map.mpr (hsorted'.imp fun hlt => List.Lex.cons hlt)
      · intro p hp q hq
        obtain ⟨i, p', b, rfl, hb, -⟩ := (hmem p).mp hp
        obtain ⟨q', -, rfl⟩ := List.mem_map.mp hq
        obtain ⟨hi, -⟩ := List.getElem?_eq_some_iff.mp hb
        exact List.Lex.rel hi
    · rw [List.mem_append, hmem p, List.mem_map]
      constructor
      · rintro (⟨i, q, b, rfl, hb, hrest⟩ | ⟨q, hq, rfl⟩)
        · obtain ⟨hi, -⟩ := List.getElem?_eq_some_iff.mp hb
          exact ⟨i, q, b, rfl, by rwa [List.getElem?_append_left hi], hrest⟩
        · exact ⟨cs.length, q, c, rfl, by simp, (hmem' q).mp hq⟩
      · rintro ⟨i, q, b, rfl, hb, hrest⟩
        rcases Nat.lt_or_ge i cs.length with hi | hi
        · rw [List.getElem?_append_left hi] at hb
          exact .inl ⟨i, q, b, rfl, hb, hrest⟩
        · rw [List.getElem?_append_right hi, List.getElem?_singleton] at hb
          split at hb
          · obtain rfl := Option.some.inj hb
            obtain rfl : i = cs.length := by omega
            exact .inr ⟨q, (hmem' q).mpr hrest, rfl⟩
          · cases hb
    · rw [List.map_append, hmap, List.map_map, List.flatMap_append, List.map_append,
        List.flatMap_singleton, ← hmap']
      exact congrArg _ (List.map_congr_left fun q _ => at?_cons_of_child hc q)

end Node
end Unravel
