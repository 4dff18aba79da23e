import Unravel.Proofs.Exchange.Spelled

/-! The normal form of a tree: its literals are spelled, consequents that would capture an `else` have
braces, and no node has a mark or a position. Each of these steps is done once and for all. -/

namespace Unravel

open Node

namespace Spelling

theorem braceItems_eq (cs : List (Option Node)) : braceItems cs = cs.map (·.map brace) :=
  items_eq_map brace braceItems rfl (fun _ => rfl) (fun _ _ => rfl) cs

theorem braceSlots_eq (ss : List (Slot Node)) : braceSlots ss = ss.map (Slot.view brace) :=
  slots_eq_map brace braceSlots rfl (fun _ => rfl) (fun _ _ => rfl)
    (fun cs ss => by rw [braceSlots, braceItems_eq]) ss

theorem brace_mk (t : Tag) (h : Head) (ss : List (Slot Node)) :
    brace (.mk t h ss) = .mk t h (guard h (ss.map (Slot.view brace))) := by
  rw [brace, braceSlots_eq]

def Captures (h : Head) (ss : List (Slot Node)) (test : Slot Node) (c a : Node) : Prop :=
  h = .ifStatement ∧ ss = [test, .one (some c), .one (some a)] ∧ endsOpen c = true

theorem guard_cases (h : Head) (ss : List (Slot Node)) :
    (∃ test c a, Captures h ss test c a ∧
      guard h ss = [test, .one (some (.blockStatement (.fresh none) [some c])), .one (some a)]) ∨
    (∀ test c a, ¬ Captures h ss test c a) ∧ guard h ss = ss := by
  unfold guard
  split
  · rename_i test c a
    by_cases hopen : endsOpen c = true
    · exact .inl ⟨test, c, a, ⟨rfl, rfl, hopen⟩, by rw [if_pos hopen]⟩
    · refine .inr ⟨?_, by rw [if_neg hopen]⟩
      rintro test c a ⟨-, hss, hopen'⟩
      cases hss
      exact hopen hopen'
  · rename_i hother
    refine .inr ⟨?_, rfl⟩
    rintro test c a ⟨rfl, rfl, -⟩
    exact hother test c a rfl rfl

theorem guard_of_not_captures {h : Head} {ss : List (Slot Node)}
    (hss : ∀ test c a, ¬ Captures h ss test c a) : guard h ss = ss := by
  obtain ⟨test, c, a, hcaptures, -⟩ | ⟨-, hguard⟩ := guard_cases h ss
  · exact absurd hcaptures (hss test c a)
  · exact hguard

theorem guard_guard (h : Head) (ss : List (Slot Node)) : guard h (guard h ss) = guard h ss := by
  obtain ⟨test, c, a, -, hguard⟩ | ⟨-, hguard⟩ := guard_cases h ss
  · rw [hguard]
    refine guard_of_not_captures ?_
    rintro test' c' a' ⟨-, hslots, hopen⟩
    cases hslots
    cases hopen
  · rw [hguard, hguard]

theorem guard_map {f : Node → Node} {h : Head} {ss : List (Slot Node)}
    (hopen : ∀ c ∈ childrenOf ss, endsOpen (f c) = endsOpen c)
    (hblock : ∀ c ∈ childrenOf ss,
      f (.blockStatement (.fresh none) [some c]) = .blockStatement (.fresh none) [some (f c)]) :
    (guard h ss).map (Slot.view f) = guard h (ss.map (Slot.view f)) := by
  obtain ⟨test, c, a, ⟨rfl, rfl, hc⟩, hguard⟩ | ⟨hcaptures, hguard⟩ := guard_cases h ss
  · have hmem : c ∈ childrenOf [test, .one (some c), .one (some a)] := by
      simp [childrenOf]
    have hfc : endsOpen (f c) = true := (hopen c hmem).trans hc
    rw [hguard]
    simp [Slot.view, guard, hfc, hblock c hmem]
  · rw [hguard]
    refine (guard_of_not_captures ?_).symm
    -- a capture among the images comes from one among the slots
    rintro test' c' a' ⟨hhead, hslots, hc'⟩
    obtain ⟨test, rest, rfl, -, hbranches⟩ := List.map_eq_cons_iff.mp hslots
    obtain ⟨c, rest, rfl, rfl, halternate⟩ := map_view_eq_one_cons hbranches
    obtain ⟨a, rfl, -⟩ := map_view_eq_one halternate
    have hmem : c ∈ childrenOf [test, .one (some c), .one (some a)] := by
      simp [childrenOf]
    exact hcaptures test c a ⟨hhead, rfl, (hopen c hmem).symm.trans hc'⟩

theorem kind_brace (n : Node) : (brace n).kind = n.kind := by
  obtain ⟨t, h, ss⟩ := n
  rfl

theorem endsOpen_map {f : Node → Node} {h : Head} {ss : List (Slot Node)}
    (hf : ∀ c ∈ childrenOf ss, endsOpen (f c) = endsOpen c) (t t' : Tag) :
    endsOpen (.mk t' h (ss.map (Slot.view f))) = endsOpen (.mk t h ss) := by
  have hlast : ∀ before c, ss = before ++ [.one (some c)] → endsOpen (f c) = endsOpen c := by
    rintro before c rfl
    exact hf c (by simp [childrenOf])
  cases h with
  | ifStatement | forInStatement =>
    match ss, hlast with
    | [], _ | [_], _ | [_, _], _ | [_, _, .one none], _ | [_, _, .many _], _ => rfl
    | [s, s', .one (some c)], hlast => exact hlast [s, s'] c rfl
    | _ :: _ :: _ :: _ :: _, _ => simp [endsOpen]
  | whileStatement | labeledStatement =>
    match ss, hlast with
    | [], _ | [_], _ | [_, .one none], _ | [_, .many _], _ => rfl
    | [s, .one (some c)], hlast => exact hlast [s] c rfl
    | _ :: _ :: _ :: _, _ => simp [endsOpen]
  | forStatement =>
    match ss, hlast with
    | [], _ | [_], _ | [_, _], _ | [_, _, _], _ | [_, _, _, .one none], _ | [_, _, _, .many _], _ => rfl
    | [s, s', s'', .one (some c)], hlast => exact hlast [s, s', s''] c rfl
    | _ :: _ :: _ :: _ :: _ :: _, _ => simp [endsOpen]
  | _ => rfl

theorem endsOpen_guard (t : Tag) (h : Head) (ss : List (Slot Node)) :
    endsOpen (.mk t h (guard h ss)) = endsOpen (.mk t h ss) := by
  obtain ⟨test, c, a, ⟨rfl, rfl, -⟩, hguard⟩ | ⟨-, hguard⟩ := guard_cases h ss
  · rw [hguard]
    rfl
  · rw [hguard]

theorem endsOpen_brace (n : Node) : endsOpen (brace n) = endsOpen n := by
  induction n with
  | h t hd ss ih => rw [brace_mk, endsOpen_guard, endsOpen_map ih]

theorem brace_blockStatement (t : Tag) (c : Node) :
    brace (.blockStatement t [some c]) = .blockStatement t [some (brace c)] := rfl

theorem brace_brace (n : Node) : brace (brace n) = brace n := by
  induction n with
  | h t hd ss ih =>
    have hbraced : (ss.map (Slot.view brace)).map (Slot.view brace) = ss.map (Slot.view brace) := by
      rw [map_view_view, map_view_congr ih]
    have hguard : (guard hd (ss.map (Slot.view brace))).map (Slot.view brace) =
        guard hd ((ss.map (Slot.view brace)).map (Slot.view brace)) :=
      guard_map (fun c _ => endsOpen_brace c) (fun c _ => brace_blockStatement _ c)
    rw [brace_mk, brace_mk, hguard, hbraced, guard_guard]

/-! Braces keep the grammar. -/

theorem everySlots_guard {P : Node → Prop} {h : Head} {ss : List (Slot Node)} (hss : EverySlots P ss)
    (hblock : ∀ test c a, Captures h ss test c a → P (.blockStatement (.fresh none) [some c])) :
    EverySlots P (guard h ss) := by
  obtain ⟨test, c, a, hcaptures, hguard⟩ | ⟨-, hguard⟩ := guard_cases h ss
  · have hc := hblock test c a hcaptures
    obtain ⟨rfl, rfl, -⟩ := hcaptures
    rw [everySlots_cons, everySlots_one] at hss
    obtain ⟨htest, hconsequent, hrest⟩ := hss
    rw [hguard, everySlots_cons, everySlots_one]
    refine ⟨htest, every_mk.mpr ⟨hc, ?_⟩, hrest⟩
    exact everySlots_many.mpr ⟨everyItems_some.mpr ⟨hconsequent, everyItems_nil⟩, everySlots_nil⟩
  · rw [hguard]
    exact hss

theorem conforms_guard {t : Tag} {h : Head} {ss : List (Slot Node)} (hn : (Node.mk t h ss).Conforms) :
    (Node.mk t h (guard h ss)).Conforms := by
  obtain ⟨test, c, a, ⟨rfl, rfl, -⟩, hguard⟩ | ⟨-, hguard⟩ := guard_cases h ss
  · rw [hguard]
    obtain _ | ⟨htest, _ | ⟨-, hrest⟩⟩ := hn
    exact .cons htest (.cons rfl hrest)
  · rw [hguard]
    exact hn

theorem conforms_of_captures {t : Tag} {h : Head} {ss : List (Slot Node)} {test : Slot Node} {c a : Node}
    (hn : (Node.mk t h ss).Conforms) (hcaptures : Captures h ss test c a) :
    (Node.blockStatement (.fresh none) [some c]).Conforms := by
  obtain ⟨rfl, rfl, -⟩ := hcaptures
  obtain _ | ⟨-, _ | ⟨hc, -⟩⟩ := hn
  have hstatement : Role.statement.admits c.kind = true := hc
  exact .cons (by simp [Demand.admits, hstatement]) .nil

theorem wellKinded_brace (n : Node) : n.WellKinded → (brace n).WellKinded := by
  induction n with
  | h t hd ss ih =>
    intro hn
    have hself : (Node.mk t hd (ss.map (Slot.view brace))).Conforms :=
      conforms_map (fun c _ r hr => by rwa [kind_brace]) hn.self
    rw [brace_mk]
    refine every_mk.mpr ⟨conforms_guard hself, everySlots_guard ?_ ?_⟩
    · exact every_map_view.mpr fun c hc => ih c hc (hn.child hc)
    · exact fun test c a => conforms_of_captures hself

theorem every_isPlain_brace (n : Node) : n.Every IsPlain → (brace n).Every IsPlain := by
  induction n with
  | h t hd ss ih =>
    intro hn
    rw [brace_mk]
    refine every_mk.mpr ⟨fun v hv => ?_, everySlots_guard ?_ ?_⟩
    · cases hv
      obtain ⟨hplain, hss⟩ := hn.self v rfl
      cases hss
      exact ⟨hplain, rfl⟩
    · exact every_map_view.mpr fun c hc => ih c hc (hn.child hc)
    · exact fun test c a _ v hv => nomatch hv

end Spelling

namespace Node

open Spelling

def bare (n : Node) : Node := fold (fun _ h slots => .mk (.fresh none) h (slots.map (Slot.map (·.2)))) n

theorem bare_mk (t : Tag) (h : Head) (ss : List (Slot Node)) :
    bare (.mk t h ss) = .mk (.fresh none) h (ss.map (Slot.view bare)) := by
  rw [bare, fold, foldSlots_eq, List.map_map, ← Slot.view_comp]
  rfl

theorem bare_bare (n : Node) : n.bare.bare = n.bare := by
  induction n with
  | h t hd ss ih => rw [bare_mk, bare_mk, map_view_view, map_view_congr ih]

theorem endsOpen_bare (n : Node) : endsOpen n.bare = endsOpen n := by
  induction n with
  | h t hd ss ih => rw [bare_mk, endsOpen_map ih]

theorem brace_bare (n : Node) : brace n.bare = (brace n).bare := by
  induction n with
  | h t hd ss ih =>
    have hslots : (ss.map (Slot.view bare)).map (Slot.view brace) =
        (ss.map (Slot.view brace)).map (Slot.view bare) := by
      rw [map_view_view, map_view_view, map_view_congr ih]
    have hguard : (guard hd (ss.map (Slot.view brace))).map (Slot.view bare) =
        guard hd ((ss.map (Slot.view brace)).map (Slot.view bare)) :=
      guard_map (fun c _ => endsOpen_bare c) (fun c _ => bare_mk _ _ _)
    rw [bare_mk, brace_mk, brace_mk, bare_mk, hguard, hslots]

theorem every_isPlain_bare (n : Node) : n.Every IsPlain → n.bare.Every IsPlain := by
  induction n with
  | h t hd ss ih =>
    intro hn
    rw [bare_mk]
    refine every_mk.mpr ⟨fun v hv => ?_, every_map_view.mpr fun c hc => ih c hc (hn.child hc)⟩
    cases hv
    obtain ⟨hplain, hss⟩ := hn.self v rfl
    cases hss
    exact ⟨hplain, rfl⟩

def normal (n : Node) : Node := (brace n.spelled).bare

theorem normal_normal {n : Node} (hn : n.Exact) : n.normal.normal = n.normal := by
  have hplain : n.normal.Every IsPlain :=
    every_isPlain_bare _ (every_isPlain_brace _ (every_isPlain_spelled n hn))
  calc n.normal.normal = (brace n.normal).bare := by rw [normal, spelled_of_isPlain _ hplain]
    _ = (brace (brace n.spelled)).bare.bare := by rw [normal, brace_bare]
    _ = n.normal := by rw [brace_brace, bare_bare, normal]

end Node
end Unravel
