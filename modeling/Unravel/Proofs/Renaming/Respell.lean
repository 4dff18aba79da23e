import Unravel.Proofs.Renaming.Exchange
import Unravel.Proofs.Write.Aspect

/-! Renaming as a change of names at places. A name that stands for no variable stays; every other
name becomes what a function makes of it. Changes of names are composed by composing the functions,
and the written names of a tree change with its names. -/

namespace Unravel

open Node

def Head.fixes (h : Head) (field : Option Field) : Bool :=
  (field.map (⟨h, ·⟩)).any Seat.isFixedName

theorem Head.fixes_mapNames (ν : String → String) (h : Head) (field : Option Field) :
    (h.mapNames ν).fixes field = h.fixes field := by
  cases field with
  | none => rfl
  | some f => cases h <;> rfl

namespace Node

mutual

def respell (ν : String → String) (fixed : Bool) : Node → Node
  | .mk t h ss =>
    .mk t (if fixed then h else h.mapNames ν) (respellSlots ν h h.kind.fields ss)

def respellSlots (ν : String → String) (h : Head) (fs : List Field) :
    List (Slot Node) → List (Slot Node)
  | [] => []
  | .one none :: ss => .one none :: respellSlots ν h fs.tail ss
  | .one (some c) :: ss =>
    .one (some (respell ν (h.fixes fs.head?) c)) :: respellSlots ν h fs.tail ss
  | .many cs :: ss => .many (respellItems ν (h.fixes fs.head?) cs) :: respellSlots ν h fs.tail ss

def respellItems (ν : String → String) (fixed : Bool) : List (Option Node) → List (Option Node)
  | [] => []
  | none :: cs => none :: respellItems ν fixed cs
  | some c :: cs => some (respell ν fixed c) :: respellItems ν fixed cs

end

section
variable {ν μ : String → String} {old new : String}

/-! Renaming is such a change. It counts the names that change. -/

def spelledAt (sort : Seat → Bool) (p : Node × Option Seat) : Option (String × Bool) :=
  p.1.name?.map (·, p.2.any sort)

def isRenamed (old : String) (p : Node × Option Seat) : Bool :=
  spelledAt Seat.isFixedName p == some (old, false)

theorem respelling_eq (seat : Option Seat) (t : Tag) (h : Head) (ss : List (Slot Node))
    (count : Nat) : respelling old new seat t h count =
      ((t, if seat.any Seat.isFixedName then h else h.mapNames (renameTo old new)),
        count + if isRenamed old (.mk t h ss, seat) then 1 else 0) := by
  cases h with
  | identifier name =>
    have hrenamed : isRenamed old (.mk t (.identifier name) ss, seat) =
        (name == old && !seat.any Seat.isFixedName) := by
      cases hfixed : seat.any Seat.isFixedName <;>
        simp [isRenamed, spelledAt, name?, hfixed]
    rw [hrenamed]
    unfold respelling Head.mapNames renameTo
    cases hfixed : seat.any Seat.isFixedName <;> by_cases hname : name = old <;> simp [hname]
  | _ => cases seat.any Seat.isFixedName <;> rfl

mutual

-- the names counted so far come with the state, from left to right
theorem relabel_eq_respell (seat : Option Seat) (count : Nat) : (n : Node) →
    relabel (respelling old new) seat n count =
      (n.respell (renameTo old new) (seat.any Seat.isFixedName),
        count + (n.seated seat).countP (isRenamed old))
  | .mk t h ss => by
    have hslots := relabelSlots_eq_respell h h.kind.fields
      (count + if isRenamed old (.mk t h ss, seat) then 1 else 0) ss
    rw [relabel, respelling_eq seat t h ss count]
    simp only [hslots, respell, seated, List.countP_cons, Nat.add_assoc, Nat.add_comm]

theorem relabelSlots_eq_respell (h : Head) (fs : List Field) (count : Nat) :
    (ss : List (Slot Node)) →
    relabelSlots (respelling old new) h fs ss count =
      (respellSlots (renameTo old new) h fs ss,
        count + (seatedSlots h fs ss).countP (isRenamed old))
  | [] => rfl
  | .one none :: ss => by
    have hrest := relabelSlots_eq_respell h fs.tail count ss
    simp only [relabelSlots, hrest, respellSlots, seatedSlots]
  | .one (some c) :: ss => by
    have hfirst := relabel_eq_respell (fs.head?.map (⟨h, ·⟩)) count c
    have hrest := relabelSlots_eq_respell h fs.tail
      (count + (c.seated (fs.head?.map (⟨h, ·⟩))).countP (isRenamed old)) ss
    simp only [relabelSlots, hfirst, hrest, respellSlots, seatedSlots, List.countP_append,
      Nat.add_assoc]
    rfl
  | .many cs :: ss => by
    have hfirst := relabelItems_eq_respell (fs.head?.map (⟨h, ·⟩)) count cs
    have hrest := relabelSlots_eq_respell h fs.tail
      (count + (seatedItems (fs.head?.map (⟨h, ·⟩)) cs).countP (isRenamed old)) ss
    simp only [relabelSlots, hfirst, hrest, respellSlots, seatedSlots, List.countP_append,
      Nat.add_assoc]
    rfl

theorem relabelItems_eq_respell (seat : Option Seat) (count : Nat) : (cs : List (Option Node)) →
    relabelItems (respelling old new) seat cs count =
      (respellItems (renameTo old new) (seat.any Seat.isFixedName) cs,
        count + (seatedItems seat cs).countP (isRenamed old))
  | [] => rfl
  | none :: cs => by
    have hrest := relabelItems_eq_respell seat count cs
    simp only [relabelItems, hrest, respellItems, seatedItems]
  | some c :: cs => by
    have hfirst := relabel_eq_respell seat count c
    have hrest := relabelItems_eq_respell seat
      (count + (c.seated seat).countP (isRenamed old)) cs
    simp only [relabelItems, hfirst, hrest, respellItems, seatedItems, List.countP_append,
      Nat.add_assoc]

end

theorem rename_eq_respell (n : Node) (old new : String) : n.rename old new =
    (n.respell (renameTo old new) false, (n.seated none).countP (isRenamed old)) := by
  have hrelabel : relabel (respelling old new) none n 0 = _ := relabel_eq_respell none 0 n
  rw [Nat.zero_add] at hrelabel
  exact hrelabel

/-! Changes of names are composed, and only names of the tree matter. -/

theorem kind_respell (fixed : Bool) (n : Node) : (n.respell ν fixed).kind = n.kind := by
  obtain ⟨t, h, ss⟩ := n
  cases fixed with
  | true => rfl
  | false => exact h.kind_mapNames

theorem fixes_respelled (fixed : Bool) (h : Head) (field : Option Field) :
    (if fixed then h else h.mapNames ν).fixes field = h.fixes field := by
  cases fixed with
  | true => rfl
  | false => exact Head.fixes_mapNames ν h field

mutual

theorem respell_respell (fixed : Bool) : (n : Node) →
    (n.respell ν fixed).respell μ fixed = n.respell (μ ∘ ν) fixed
  | .mk t h ss => by
    have hkind : (if fixed then h else h.mapNames ν).kind = h.kind :=
      kind_respell fixed (.mk t h ss)
    have hhead : (if fixed then (if fixed then h else h.mapNames ν)
        else (if fixed then h else h.mapNames ν).mapNames μ) =
        if fixed then h else h.mapNames (μ ∘ ν) := by
      cases fixed with
      | true => rfl
      | false => cases h <;> rfl
    simp only [respell, hkind, hhead]
    rw [respellSlots_respellSlots _ h h.kind.fields (fixes_respelled fixed h) ss]

theorem respellSlots_respellSlots (h' h : Head) (fs : List Field)
    (hfixes : ∀ field, h'.fixes field = h.fixes field) : (ss : List (Slot Node)) →
    respellSlots μ h' fs (respellSlots ν h fs ss) = respellSlots (μ ∘ ν) h fs ss
  | [] => rfl
  | .one none :: ss => by
    simp only [respellSlots, respellSlots_respellSlots h' h fs.tail hfixes ss]
  | .one (some c) :: ss => by
    simp only [respellSlots, hfixes, respell_respell _ c,
      respellSlots_respellSlots h' h fs.tail hfixes ss]
  | .many cs :: ss => by
    simp only [respellSlots, hfixes, respellItems_respellItems _ cs,
      respellSlots_respellSlots h' h fs.tail hfixes ss]

theorem respellItems_respellItems (fixed : Bool) : (cs : List (Option Node)) →
    respellItems μ fixed (respellItems ν fixed cs) = respellItems (μ ∘ ν) fixed cs
  | [] => rfl
  | none :: cs => by simp only [respellItems, respellItems_respellItems fixed cs]
  | some c :: cs => by
    simp only [respellItems, respell_respell fixed c, respellItems_respellItems fixed cs]

end

mutual

theorem respell_congr (fixed : Bool) : (n : Node) → (∀ name ∈ n.names, μ name = ν name) →
    n.respell μ fixed = n.respell ν fixed
  | .mk t h ss, hsame => by
    rw [names_mk, List.forall_mem_append] at hsame
    have hhead : h.mapNames μ = h.mapNames ν := by
      cases h with
      | identifier name => exact congrArg Head.identifier (hsame.1 name (List.mem_singleton_self _))
      | _ => rfl
    rw [respell, respell, hhead, respellSlots_congr h h.kind.fields ss hsame.2]

theorem respellSlots_congr (h : Head) (fs : List Field) : (ss : List (Slot Node)) →
    (∀ name ∈ namesSlots ss, μ name = ν name) → respellSlots μ h fs ss = respellSlots ν h fs ss
  | [], _ => rfl
  | .one none :: ss, hsame => by
    rw [respellSlots, respellSlots, respellSlots_congr h fs.tail ss hsame]
  | .one (some c) :: ss, hsame => by
    rw [namesSlots_one, List.forall_mem_append] at hsame
    rw [respellSlots, respellSlots, respell_congr _ c hsame.1,
      respellSlots_congr h fs.tail ss hsame.2]
  | .many cs :: ss, hsame => by
    rw [namesSlots_many, List.forall_mem_append] at hsame
    rw [respellSlots, respellSlots, respellItems_congr _ cs hsame.1,
      respellSlots_congr h fs.tail ss hsame.2]

theorem respellItems_congr (fixed : Bool) : (cs : List (Option Node)) →
    (∀ name ∈ namesItems cs, μ name = ν name) → respellItems μ fixed cs = respellItems ν fixed cs
  | [], _ => rfl
  | none :: cs, hsame => by
    rw [respellItems, respellItems, respellItems_congr fixed cs hsame]
  | some c :: cs, hsame => by
    rw [namesItems_some, List.forall_mem_append] at hsame
    rw [respellItems, respellItems, respell_congr fixed c hsame.1,
      respellItems_congr fixed cs hsame.2]

end

mutual

theorem respell_id (fixed : Bool) : (n : Node) → n.respell id fixed = n
  | .mk t h ss => by
    have hhead : (if fixed then h else h.mapNames id) = h := by
      cases fixed <;> cases h <;> rfl
    rw [respell, hhead, respellSlots_id h h.kind.fields ss]

theorem respellSlots_id (h : Head) (fs : List Field) : (ss : List (Slot Node)) →
    respellSlots id h fs ss = ss
  | [] => rfl
  | .one none :: ss => by rw [respellSlots, respellSlots_id h fs.tail ss]
  | .one (some c) :: ss => by rw [respellSlots, respell_id _ c, respellSlots_id h fs.tail ss]
  | .many cs :: ss => by rw [respellSlots, respellItems_id _ cs, respellSlots_id h fs.tail ss]

theorem respellItems_id (fixed : Bool) : (cs : List (Option Node)) → respellItems id fixed cs = cs
  | [] => rfl
  | none :: cs => by rw [respellItems, respellItems_id fixed cs]
  | some c :: cs => by rw [respellItems, respell_id fixed c, respellItems_id fixed cs]

end

/-! Which names there are afterwards. -/

def respelt (ν : String → String) (p : String × Bool) : String × Bool :=
  (if p.2 then p.1 else ν p.1, p.2)

theorem spelledAt_respelled (ν : String → String) {seat seat' : Option Seat}
    (hseat : seat'.any Seat.isFixedName = seat.any Seat.isFixedName) (t : Tag) (h : Head)
    (ss ss' : List (Slot Node)) :
    spelledAt Seat.isFixedName
        (.mk t (if seat.any Seat.isFixedName then h else h.mapNames ν) ss', seat') =
      (spelledAt Seat.isFixedName (.mk t h ss, seat)).map (respelt ν) := by
  unfold spelledAt
  rw [hseat]
  cases h with
  | identifier name => cases seat.any Seat.isFixedName <;> rfl
  | _ => cases seat.any Seat.isFixedName <;> rfl

mutual

theorem spelled_respell (seat seat' : Option Seat)
    (hseat : seat'.any Seat.isFixedName = seat.any Seat.isFixedName) : (n : Node) →
    ((n.respell ν (seat.any Seat.isFixedName)).seated seat').filterMap
        (spelledAt Seat.isFixedName) =
      ((n.seated seat).filterMap (spelledAt Seat.isFixedName)).map (respelt ν)
  | .mk t h ss => by
    have hkind : (if seat.any Seat.isFixedName then h else h.mapNames ν).kind = h.kind :=
      kind_respell (seat.any Seat.isFixedName) (.mk t h ss)
    have hself := spelledAt_respelled ν hseat t h ss (respellSlots ν h h.kind.fields ss)
    have hslots := spelled_respellSlots (if seat.any Seat.isFixedName then h else h.mapNames ν) h
      h.kind.fields (fixes_respelled (seat.any Seat.isFixedName) h) ss
    rw [respell, seated, hkind, seated, List.filterMap_cons, hself, hslots, List.filterMap_cons]
    cases spelledAt Seat.isFixedName (.mk t h ss, seat) with
    | none => rfl
    | some p => rfl

theorem spelled_respellSlots (h' h : Head) (fs : List Field)
    (hfixes : ∀ field, h'.fixes field = h.fixes field) : (ss : List (Slot Node)) →
    (seatedSlots h' fs (respellSlots ν h fs ss)).filterMap (spelledAt Seat.isFixedName) =
      ((seatedSlots h fs ss).filterMap (spelledAt Seat.isFixedName)).map (respelt ν)
  | [] => rfl
  | .one none :: ss => spelled_respellSlots h' h fs.tail hfixes ss
  | .one (some c) :: ss => by
    have hfirst := spelled_respell _ _ (hfixes fs.head?) c
    have hrest := spelled_respellSlots h' h fs.tail hfixes ss
    rw [respellSlots, seatedSlots, seatedSlots, List.filterMap_append, List.filterMap_append,
      List.map_append, ← hrest, ← hfirst]
    rfl
  | .many cs :: ss => by
    have hfirst := spelled_respellItems _ _ (hfixes fs.head?) cs
    have hrest := spelled_respellSlots h' h fs.tail hfixes ss
    rw [respellSlots, seatedSlots, seatedSlots, List.filterMap_append, List.filterMap_append,
      List.map_append, ← hrest, ← hfirst]
    rfl

theorem spelled_respellItems (seat seat' : Option Seat)
    (hseat : seat'.any Seat.isFixedName = seat.any Seat.isFixedName) : (cs : List (Option Node)) →
    (seatedItems seat' (respellItems ν (seat.any Seat.isFixedName) cs)).filterMap
        (spelledAt Seat.isFixedName) =
      ((seatedItems seat cs).filterMap (spelledAt Seat.isFixedName)).map (respelt ν)
  | [] => rfl
  | none :: cs => spelled_respellItems seat seat' hseat cs
  | some c :: cs => by
    have hfirst := spelled_respell seat seat' hseat c
    have hrest := spelled_respellItems seat seat' hseat cs
    rw [respellItems, seatedItems, seatedItems, List.filterMap_append, List.filterMap_append,
      List.map_append, ← hrest, ← hfirst]

end

end

/-! Where each node sits. -/

def SeatedIn (o : Node) (c : Node) (seat : Option Seat) : Prop :=
  ∃ (i : Nat) (s : Slot Node), o.slots[i]? = some s ∧ c ∈ s.children ∧
    seat = o.kind.fields[i]?.map (⟨o.head, ·⟩)

theorem exists_slot_of_tail {c : Node} {seat : Option Seat} {h : Head} {fs : List Field}
    {s : Slot Node} {ss : List (Slot Node)}
    (hin : ∃ (i : Nat) (u : Slot Node), ss[i]? = some u ∧ c ∈ u.children ∧
      seat = fs.tail[i]?.map (⟨h, ·⟩)) :
    ∃ (i : Nat) (u : Slot Node), (s :: ss)[i]? = some u ∧ c ∈ u.children ∧
      seat = fs[i]?.map (⟨h, ·⟩) := by
  obtain ⟨i, u, hu, hcu, hseat⟩ := hin
  rw [List.getElem?_tail] at hseat
  exact ⟨i + 1, u, hu, hcu, hseat⟩

mutual

theorem seat_of_mem_seated {c : Node} {seat' : Option Seat} (seat : Option Seat) : (n : Node) →
    (c, seat') ∈ n.seated seat → c = n ∧ seat' = seat ∨ ∃ o ∈ n.walk, o.SeatedIn c seat'
  | .mk t h ss, hc => by
    rcases List.mem_cons.mp hc with heq | hbelow
    · obtain ⟨hself, hseat⟩ := Prod.ext_iff.mp heq
      exact .inl ⟨hself, hseat⟩
    · have hslots := seat_of_mem_seatedSlots h h.kind.fields ss hbelow
      rcases hslots with ⟨i, s, hs, hcs, hseat⟩ | ⟨o, ho, hin⟩
      · exact .inr ⟨_, List.mem_cons_self, i, s, hs, hcs, hseat⟩
      · exact .inr ⟨o, List.mem_cons_of_mem _ ho, hin⟩

theorem seat_of_mem_seatedSlots {c : Node} {seat' : Option Seat} (h : Head) (fs : List Field) :
    (ss : List (Slot Node)) → (c, seat') ∈ seatedSlots h fs ss →
    (∃ (i : Nat) (s : Slot Node), ss[i]? = some s ∧ c ∈ s.children ∧ seat' = fs[i]?.map (⟨h, ·⟩)) ∨
      ∃ o ∈ walkSlots ss, o.SeatedIn c seat'
  | [], hc => nomatch hc
  | .one none :: ss, hc => by
    rcases seat_of_mem_seatedSlots h fs.tail ss hc with hlater | hin
    · exact .inl (exists_slot_of_tail hlater)
    · exact .inr hin
  | .one (some d) :: ss, hc => by
    rcases List.mem_append.mp hc with hfirst | hrest
    · rcases seat_of_mem_seated _ d hfirst with ⟨rfl, hseat⟩ | ⟨o, ho, hin⟩
      · rw [List.head?_eq_getElem?] at hseat
        exact .inl ⟨0, _, rfl, Slot.mem_children_one.mpr rfl, hseat⟩
      · exact .inr ⟨o, List.mem_append_left _ ho, hin⟩
    · rcases seat_of_mem_seatedSlots h fs.tail ss hrest with hlater | ⟨o, ho, hin⟩
      · exact .inl (exists_slot_of_tail hlater)
      · exact .inr ⟨o, List.mem_append_right _ ho, hin⟩
  | .many cs :: ss, hc => by
    rcases List.mem_append.mp hc with hfirst | hrest
    · rcases seat_of_mem_seatedItems _ cs hfirst with ⟨hmem, hseat⟩ | ⟨o, ho, hin⟩
      · rw [List.head?_eq_getElem?] at hseat
        exact .inl ⟨0, _, rfl, Slot.mem_children_many.mpr hmem, hseat⟩
      · exact .inr ⟨o, List.mem_append_left _ ho, hin⟩
    · rcases seat_of_mem_seatedSlots h fs.tail ss hrest with hlater | ⟨o, ho, hin⟩
      · exact .inl (exists_slot_of_tail hlater)
      · exact .inr ⟨o, List.mem_append_right _ ho, hin⟩

theorem seat_of_mem_seatedItems {c : Node} {seat' : Option Seat} (seat : Option Seat) :
    (cs : List (Option Node)) → (c, seat') ∈ seatedItems seat cs →
    some c ∈ cs ∧ seat' = seat ∨ ∃ o ∈ walkItems cs, o.SeatedIn c seat'
  | [], hc => nomatch hc
  | none :: cs, hc => by
    rcases seat_of_mem_seatedItems seat cs hc with ⟨hmem, hseat⟩ | hin
    · exact .inl ⟨List.mem_cons_of_mem _ hmem, hseat⟩
    · exact .inr hin
  | some d :: cs, hc => by
    rcases List.mem_append.mp hc with hfirst | hrest
    · rcases seat_of_mem_seated seat d hfirst with ⟨rfl, hseat⟩ | ⟨o, ho, hin⟩
      · exact .inl ⟨List.mem_cons_self, hseat⟩
      · exact .inr ⟨o, List.mem_append_left _ ho, hin⟩
    · rcases seat_of_mem_seatedItems seat cs hrest with ⟨hmem, hseat⟩ | ⟨o, ho, hin⟩
      · exact .inl ⟨List.mem_cons_of_mem _ hmem, hseat⟩
      · exact .inr ⟨o, List.mem_append_right _ ho, hin⟩

end

end Node
end Unravel
