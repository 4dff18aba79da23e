import Unravel.Proofs.Hoisting.Remainder
import Unravel.Proofs.Hoisting.Traversal
import Mathlib.Data.List.Perm.Subperm

/-! Hoisting twice. The second call changes nothing exactly when it finds the functions at the front
again as the first of their names. -/

namespace Unravel.Hoist

open Node

def Declaration.leads (n : Nat) (d : Declaration) : Bool :=
  match d.place with
  | [(0, k)] => k < n
  | _ => false

/-- Of the declarations in lists, those that come first of their names are the first statements of
the program. -/
def Settled (n : Nat) (ds : List Declaration) : Prop :=
  ∀ before d after, ds = before ++ d :: after → d.inList = true →
    ((∀ e ∈ before, e.name ≠ d.name) ↔ d.leads n = true)

def title? (n : Node) : Option String := functionName? n.head n.slots

theorem declarations_program (t : Tag) (body : List (Option Node)) :
    declarations false (program t body) = declarationsItems 0 0 body :=
  List.append_nil _

theorem declarations_of_title {n : Node} {name : String} (h : title? n = some name) :
    declarations true n = ⟨[], true, name, n⟩ :: declarationsSlots 0 n.slots := by
  obtain ⟨t, hd, ss⟩ := n
  have h : functionName? hd ss = some name := h
  rw [declarations, h]
  rfl

/-! The functions at the front, and what is behind them. -/

section
variable {ms : List Node} {cs : List (Option Node)}

theorem leads_under_eq_false {n : Nat} (x : Nat × Nat) {d : Declaration} (h : d.place ≠ []) :
    (d.under x).leads n = false := by
  obtain ⟨y, p, hplace⟩ := List.exists_cons_of_ne_nil h
  simp [Declaration.leads, Declaration.under, hplace]

theorem filter_leads_behind (n k : Nat) (hle : n ≤ k) (cs : List (Option Node)) :
    (declarationsItems 0 k cs).filter (·.leads n) = [] := by
  refine List.filter_eq_nil_iff.mpr fun d hd => ?_
  obtain ⟨⟨i, k'⟩, p, hplace, -, hk⟩ := starts_items 0 k cs d hd
  unfold Declaration.leads
  rw [hplace]
  split
  case h_1 heq =>
    cases heq
    simp only [decide_eq_true_eq]
    omega
  case h_2 => exact Bool.false_ne_true

theorem filter_leads (hms : ∀ m ∈ ms, (title? m).isSome = true) (cs : List (Option Node)) (k : Nat) :
    ((declarationsItems 0 k (ms.map some ++ cs)).filter (·.leads (k + ms.length))).map
      (fun d => (d.place, d.node)) = (ms.zipIdx k).map fun m => ([(0, m.2)], m.1) := by
  induction ms generalizing k with
  | nil => exact congrArg (List.map _) (filter_leads_behind k k (Nat.le_refl k) cs)
  | cons m ms ih =>
    obtain ⟨hm, hms⟩ := List.forall_mem_cons.mp hms
    obtain ⟨name, hname⟩ := Option.isSome_iff_exists.mp hm
    have hroot : (Declaration.under (0, k) ⟨[], true, name, m⟩).leads (k + (ms.length + 1)) = true := by
      simp [Declaration.leads, Declaration.under]
    have hinside : ((declarationsSlots 0 m.slots).map (·.under (0, k))).filter
        (·.leads (k + (ms.length + 1))) = [] := by
      refine List.filter_eq_nil_iff.mpr fun d hd => ?_
      obtain ⟨e, he, rfl⟩ := List.mem_map.mp hd
      rw [leads_under_eq_false _ (inside_slots 0 m.slots e he)]
      exact Bool.false_ne_true
    have hlater := ih hms (k + 1)
    rw [Nat.add_assoc, Nat.add_comm 1] at hlater
    rw [List.map_cons, List.cons_append, declarationsItems, declarations_of_title hname, List.map_cons,
      List.cons_append, List.length_cons, List.filter_cons_of_pos hroot, List.filter_append, hinside,
      List.nil_append, List.map_cons, hlater, List.zipIdx_cons, List.map_cons]
    rfl

theorem leads_or_shallow {limit : Nat} (hms : ∀ m ∈ ms, (title? m).isSome = true)
    (hup : Uplifted limit ms) (hcs : ∀ k, Shallow limit 0 (declarationsItems 0 k cs)) (k : Nat) :
    ∀ d ∈ declarationsItems 0 k (ms.map some ++ cs), d.inList = true →
      d.leads (k + ms.length) = true ∨ d.place.length ≤ limit := by
  induction ms generalizing k with
  | nil =>
    intro d hd hlist
    have hle := hcs k d hd hlist
    exact .inr (by omega)
  | cons m ms ih =>
    obtain ⟨hm, hms⟩ := List.forall_mem_cons.mp hms
    obtain ⟨hupm, hup⟩ := List.forall_mem_cons.mp hup
    obtain ⟨name, hname⟩ := Option.isSome_iff_exists.mp hm
    rw [List.length_cons, Nat.add_comm ms.length, ← Nat.add_assoc]
    intro d hd hlist
    rcases List.mem_append.mp hd with hd | hd
    · rw [declarations_of_title hname] at hd
      rcases List.mem_cons.mp hd with rfl | hd
      · refine .inl ?_
        simp only [Declaration.leads, Declaration.under, decide_eq_true_eq]
        omega
      · have hunder : Shallow limit 0 _ := hupm.under (0, k)
        have hle := hunder d hd hlist
        exact .inr (by omega)
    · exact ih hms hup (k + 1) d hd hlist

theorem inList_of_leads {n i k : Nat} {d : Declaration} (hd : d ∈ declarationsItems i k cs)
    (hleads : d.leads n = true) : d.inList = true := by
  induction cs generalizing k with
  | nil => cases hd
  | cons c cs ih =>
    cases c with
    | none => exact ih hd
    | some c =>
      rcases List.mem_append.mp hd with hd | hd
      · obtain ⟨e, he, rfl⟩ := List.mem_map.mp hd
        refine inList_of_root (d := e) he (of_not_not fun hne => ?_)
        rw [leads_under_eq_false _ hne] at hleads
        cases hleads
      · exact ih hd

theorem declarationsItems_append (i k : Nat) (cs cs' : List (Option Node)) :
    declarationsItems i k (cs ++ cs') =
      declarationsItems i k cs ++ declarationsItems i (k + cs.length) cs' := by
  induction cs generalizing k with
  | nil => rfl
  | cons c cs ih =>
    have hlater := ih (k + 1)
    rw [Nat.add_assoc, Nat.add_comm 1] at hlater
    cases c with
    | none => exact hlater
    | some c => rw [List.cons_append, declarationsItems, hlater, declarationsItems, List.append_assoc]; rfl

theorem ends_items (i k : Nat) (cs : List (Option Node)) :
    ∀ d ∈ declarationsItems i k cs, ∃ x p, d.place = x :: p ∧ x.2 < k + cs.length := by
  induction cs generalizing k with
  | nil =>
    intro d hd
    cases hd
  | cons c cs ih =>
    have hlater := ih (k + 1)
    rw [Nat.add_assoc, Nat.add_comm 1] at hlater
    cases c with
    | none => exact hlater
    | some c =>
      intro d hd
      rcases List.mem_append.mp hd with hd | hd
      · obtain ⟨x, p, hplace, rfl⟩ := starts_under _ _ d hd
        exact ⟨(i, k), p, hplace, Nat.lt_add_of_pos_right (Nat.zero_lt_succ _)⟩
      · exact hlater d hd

theorem exists_of_title {m : Node} {name : String} (hm : m ∈ ms) (htitle : title? m = some name)
    (i k : Nat) : ∃ d ∈ declarationsItems i k (ms.map some), d.name = name := by
  induction ms generalizing k with
  | nil => cases hm
  | cons m' ms ih =>
    rw [List.map_cons, declarationsItems]
    rcases List.mem_cons.mp hm with rfl | hm
    · have hroot : ⟨[], true, name, m⟩ ∈ declarations true m :=
        declarations_of_title htitle ▸ List.mem_cons_self ..
      exact ⟨_, List.mem_append_left _ (List.mem_map_of_mem hroot), rfl⟩
    · obtain ⟨d, hd, hname⟩ := ih hm (k + 1)
      exact ⟨d, List.mem_append_right _ hd, hname⟩

/-! What is left of a list, and how long it is. -/

theorem withoutItems_front {gone : Place → Bool} {i k : Nat}
    (hgone : ∀ j, k ≤ j → j < k + ms.length → gone [(i, j)] = true) :
    withoutItems gone i k (ms.map some ++ cs) = withoutItems gone i (k + ms.length) cs := by
  induction ms generalizing k with
  | nil => rfl
  | cons m ms ih =>
    rw [List.length_cons] at hgone ⊢
    rw [List.map_cons, List.cons_append, withoutItems,
      if_pos (hgone k (Nat.le_refl k) (by omega)), ih fun j hj hlt => hgone j (by omega) (by omega)]
    congr 1
    omega

theorem length_le_withoutItems (gone : Place → Bool) (i k : Nat) (cs : List (Option Node)) :
    cs.length ≤ (withoutItems gone i k cs).length +
      ((List.range' k cs.length).filter fun j => gone [(i, j)]).length := by
  induction cs generalizing k with
  | nil => exact Nat.zero_le _
  | cons c cs ih =>
    have hle := ih (k + 1)
    rw [List.length_cons, List.range'_succ]
    have hmono : ((List.range' (k + 1) cs.length).filter fun j => gone [(i, j)]).length ≤
        ((k :: List.range' (k + 1) cs.length).filter fun j => gone [(i, j)]).length :=
      ((List.sublist_cons_self ..).filter _).length_le
    cases c with
    | none =>
      rw [withoutItems, List.length_cons]
      omega
    | some c =>
      rw [withoutItems]
      split
      case isTrue hgone =>
        rw [List.filter_cons_of_pos (p := fun j => gone [(i, j)]) hgone, List.length_cons]
        omega
      case isFalse =>
        rw [List.length_cons]
        omega

end

/-! The verdict on one declaration, against the declarations before it. -/

section
variable {limit depth : Nat} {seen : List String} {ds : List Declaration} {vs before after : List Verdict}
  {v : Verdict}

theorem Judged.at (h : Judged limit depth seen (before ++ v :: after)) (f : Fate) :
    Deserves limit depth (seen ++ before.map (·.declaration.name)) v.declaration f ↔ f = v.fate := by
  induction before generalizing seen with
  | nil => simpa using h.1 f
  | cons w before ih => simpa using ih h.2

theorem Judged.hoisted_iff (h : Judged limit depth [] (before ++ v :: after)) :
    v.fate = .hoisted ↔ v.declaration.inList = true ∧
      ∀ d ∈ before.map (·.declaration), d.name ≠ v.declaration.name := by
  have hnew : v.declaration.name ∉ [] ++ before.map (·.declaration.name) ↔
      ∀ d ∈ before.map (·.declaration), d.name ≠ v.declaration.name := by
    simp
  rw [eq_comm, ← h.at, ← hnew]
  constructor
  · rintro ⟨hname, hlist⟩
    exact ⟨hlist, hname⟩
  · exact fun h => .hoisted h.2 h.1

theorem Accounts.all_reached (h : Accounts limit depth seen ds vs)
    (hkept : ∀ v ∈ vs, v.fate ≠ .discarded) : vs.map (·.declaration) = ds := by
  rw [h.reached, List.filter_eq_self]
  intro d _
  rw [List.any_eq_false.mpr fun v hv => by simp [Verdict.hides, hkept v hv]]
  rfl

theorem Accounts.earlier (h : Accounts limit depth seen ds (before ++ v :: after)) :
    ∃ ds₁ ds₂, ds = ds₁ ++ v.declaration :: ds₂ ∧ before.map (·.declaration) ⊆ ds₁ := by
  have hreached := h.reached
  rw [List.map_append, List.map_cons] at hreached
  obtain ⟨ds₁, ds', rfl, hds₁, hds'⟩ := List.filter_eq_append_iff.mp hreached.symm
  obtain ⟨skipped, ds₂, rfl, -, -, -⟩ := List.filter_eq_cons_iff.mp hds'
  refine ⟨ds₁ ++ skipped, ds₂, by rw [List.append_assoc], ?_⟩
  rw [← hds₁]
  exact fun d hd => List.mem_append_left _ (List.mem_filter.mp hd).1

end

/-! The second call. -/

section
variable {ms : List Node} {cs : List (Option Node)} {vs : List Verdict}

theorem place_of_hoisted (hkept : ∀ v ∈ vs, v.fate ≠ .discarded)
    (hcount : (vs.filter (·.fate == .hoisted)).length = ms.length)
    (hrest : (withoutItems (gone vs) 0 0 (ms.map some ++ cs)).length = cs.length) :
    ∀ v ∈ vs, v.fate = .hoisted → ∃ k, v.declaration.place = [(0, k)] := by
  let top (v : Verdict) : Option Nat :=
    match v.declaration.place with
    | [(0, k)] => some k
    | _ => none
  let taken := (List.range' 0 (ms.map some ++ cs).length).filter fun j => gone vs [(0, j)]
  let tops := (vs.filter (·.fate == .hoisted)).filterMap top
  have henough : ms.length ≤ taken.length := by
    have hle := length_le_withoutItems (gone vs) 0 0 (ms.map some ++ cs)
    rw [hrest, List.length_append, List.length_map] at hle
    simp only [taken, List.length_append, List.length_map]
    omega
  have hsub : taken ⊆ tops := by
    intro k hk
    obtain ⟨v, hv, hgone⟩ := List.any_eq_true.mp (List.mem_filter.mp hk).2
    simp only [Bool.and_eq_true, beq_iff_eq] at hgone
    obtain ⟨hplace, hleaves⟩ := hgone
    refine List.mem_filterMap.mpr ⟨v, List.mem_filter.mpr ⟨hv, ?_⟩, by simp only [top, hplace]⟩
    cases hf : v.fate with
    | hoisted => rfl
    | discarded => exact absurd hf (hkept v hv)
    | pinned | unresolved => rw [hf] at hleaves; cases hleaves
  have hnodup : taken.Nodup := List.Pairwise.filter _ List.nodup_range'
  have hle : taken.length ≤ tops.length := (hnodup.subperm hsub).length_le
  have hall : tops.length = (vs.filter (·.fate == .hoisted)).length :=
    Nat.le_antisymm (List.length_filterMap_le _ _) (by omega)
  intro v hv hf
  have hsome := List.filterMap_length_eq_length.mp hall v (List.mem_filter.mpr ⟨hv, beq_iff_eq.mpr hf⟩)
  simp only [top] at hsome
  split at hsome
  case h_1 k hplace => exact ⟨k, hplace⟩
  case h_2 => cases hsome

end

structure Again (limit : Nat) (ms : List Node) (cs : List (Option Node)) (vs : List Verdict) :
    Prop where
  titled : ∀ m ∈ ms, (title? m).isSome = true
  uplifted : Uplifted limit ms
  shallow : ∀ k, Shallow limit 0 (declarationsItems 0 k cs)
  accounts : Accounts limit 0 [] (declarationsItems 0 0 (ms.map some ++ cs)) vs

def Led (n : Nat) (vs : List Verdict) : Prop :=
  ∀ v ∈ vs, v.fate ≠ .discarded ∧ (v.fate = .hoisted ↔ v.declaration.leads n = true)

namespace Again

variable {limit : Nat} {ms : List Node} {cs : List (Option Node)} {vs : List Verdict}

theorem led_of_settled (h : Again limit ms cs vs)
    (hsettled : Settled ms.length (declarationsItems 0 0 (ms.map some ++ cs))) :
    Led ms.length vs := by
  have hkept : ∀ v ∈ vs, v.fate ≠ .discarded := by
    intro v hv hfate
    obtain ⟨before, after, rfl⟩ := List.append_of_mem hv
    obtain ⟨ds₁, ds₂, hds, hsub⟩ := h.accounts.earlier
    have hdeserves := (h.accounts.judged.at v.fate).mpr rfl
    rw [hfate] at hdeserves
    obtain - | - | ⟨hname, hlist, hdeep⟩ := hdeserves
    obtain ⟨w, hw, hsame⟩ := List.mem_map.mp (by simpa using hname)
    have hnew : v.declaration.leads ms.length = false := by
      refine Bool.eq_false_iff.mpr fun hleads => ?_
      exact (hsettled _ _ _ hds hlist).mpr hleads _ (hsub (List.mem_map_of_mem hw)) hsame
    rcases leads_or_shallow h.titled h.uplifted h.shallow 0 _ (h.accounts.mem hv) hlist with hleads | hle
    · rw [Nat.zero_add, hnew] at hleads
      cases hleads
    · omega
  refine fun v hv => ⟨hkept v hv, ?_⟩
  have hmem := h.accounts.mem hv
  have hall := h.accounts.all_reached hkept
  obtain ⟨before, after, rfl⟩ := List.append_of_mem hv
  rw [List.map_append, List.map_cons] at hall
  rw [h.accounts.judged.hoisted_iff]
  constructor
  · exact fun ⟨hlist, hnew⟩ => (hsettled _ _ _ hall.symm hlist).mp hnew
  · intro hleads
    have hlist := inList_of_leads hmem hleads
    exact ⟨hlist, (hsettled _ _ _ hall.symm hlist).mpr hleads⟩

theorem settled_of_led (h : Again limit ms cs vs) (hled : Led ms.length vs) :
    Settled ms.length (declarationsItems 0 0 (ms.map some ++ cs)) := by
  intro ds₁ d ds₂ hds hlist
  rw [← h.accounts.all_reached fun v hv => (hled v hv).1] at hds
  obtain ⟨before, later, rfl, rfl, hlater⟩ := List.map_eq_append_iff.mp hds
  obtain ⟨v, after, rfl, rfl, rfl⟩ := List.map_eq_cons_iff.mp hlater
  rw [← (hled v (List.mem_append_right _ (List.mem_cons_self ..))).2, h.accounts.judged.hoisted_iff]
  exact ⟨fun hnew => ⟨hlist, hnew⟩, fun hhoisted => hhoisted.2⟩

theorem hoisted_eq (h : Again limit ms cs vs) (hled : Led ms.length vs) :
    (vs.filter (·.fate == .hoisted)).map (fun v => (v.declaration.place, v.declaration.node)) =
      ms.zipIdx.map fun m => ([(0, m.2)], m.1) := by
  have hfront := filter_leads h.titled cs 0
  rw [Nat.zero_add, ← h.accounts.all_reached fun v hv => (hled v hv).1, List.filter_map,
    List.map_map] at hfront
  rw [← hfront]
  refine congrArg (List.map _) (List.filter_congr fun v hv => ?_)
  rw [Bool.eq_iff_iff, beq_iff_eq, (hled v hv).2]
  rfl

theorem gone_iff (h : Again limit ms cs vs) (hled : Led ms.length vs) (p : Place) :
    gone vs p = true ↔ ∃ k < ms.length, p = [(0, k)] := by
  have hplaces : (vs.filter (·.fate == .hoisted)).map (·.declaration.place) =
      ms.zipIdx.map fun m => [(0, m.2)] := by
    have hpairs := congrArg (List.map Prod.fst) (h.hoisted_eq hled)
    rwa [List.map_map, List.map_map] at hpairs
  have hgone : gone vs p = true ↔
      p ∈ (vs.filter (·.fate == .hoisted)).map (·.declaration.place) := by
    simp only [gone, List.any_eq_true, Bool.and_eq_true, beq_iff_eq, List.mem_map, List.mem_filter]
    constructor
    · rintro ⟨v, hv, hplace, hleaves⟩
      refine ⟨v, ⟨hv, ?_⟩, hplace⟩
      cases hf : v.fate with
      | hoisted => rfl
      | discarded => exact absurd hf (hled v hv).1
      | pinned | unresolved => rw [hf] at hleaves; cases hleaves
    · rintro ⟨v, ⟨hv, hf⟩, hplace⟩
      exact ⟨v, hv, hplace, by rw [hf]; rfl⟩
  rw [hgone, hplaces, List.mem_map]
  constructor
  · rintro ⟨⟨m, k⟩, hm, rfl⟩
    exact ⟨k, (List.mem_zipIdx' hm).1, rfl⟩
  · rintro ⟨k, hk, rfl⟩
    exact ⟨(ms[k], k), List.mk_mem_zipIdx_iff_getElem?.mpr (List.getElem?_eq_getElem hk), rfl⟩

theorem moved_eq (h : Again limit ms cs vs) (hled : Led ms.length vs) : moved vs = ms := by
  have hnodes : (vs.filter (·.fate == .hoisted)).map (·.declaration.node) = ms := by
    have hpairs := congrArg (List.map Prod.snd) (h.hoisted_eq hled)
    rw [List.map_map, List.map_map] at hpairs
    exact hpairs.trans (List.zipIdx_map_fst 0 ms)
  refine .trans (List.map_congr_left fun v hv => ?_) hnodes
  have hplace : ∃ k, v.declaration.place = [(0, k)] := by
    obtain ⟨hv, hf⟩ := List.mem_filter.mp hv
    have hgone : gone vs v.declaration.place = true :=
      List.any_eq_true.mpr ⟨v, hv, by rw [beq_iff_eq.mp hf]; simp [Fate.leaves]⟩
    obtain ⟨k, -, hplace⟩ := (h.gone_iff hled _).mp hgone
    exact ⟨k, hplace⟩
  obtain ⟨k, hplace⟩ := hplace
  have hinside : without (fun p => gone vs (v.declaration.place ++ p)) v.declaration.node =
      without (fun _ => false) v.declaration.node := by
    refine without_congr _ fun x p => Bool.eq_false_iff.mpr fun hgone => ?_
    obtain ⟨k', -, heq⟩ := (h.gone_iff hled _).mp hgone
    rw [hplace] at heq
    cases heq
  exact hinside.trans (without_none _)

theorem withoutItems_eq (h : Again limit ms cs vs) (hled : Led ms.length vs) :
    withoutItems (gone vs) 0 0 (ms.map some ++ cs) = cs := by
  have hfront : ∀ j, 0 ≤ j → j < 0 + ms.length → gone vs [(0, j)] = true := fun j _ hj =>
    (h.gone_iff hled _).mpr ⟨j, by omega, rfl⟩
  have hbehind : withoutItems (gone vs) 0 (0 + ms.length) cs =
      withoutItems (fun _ => false) 0 (0 + ms.length) cs := by
    refine withoutItems_congr _ _ _ fun k p hle => Bool.eq_false_iff.mpr fun hgone => ?_
    obtain ⟨k', hk', heq⟩ := (h.gone_iff hled _).mp hgone
    cases heq
    omega
  rw [withoutItems_front hfront, hbehind, withoutItems_none]

theorem leads_of_hoisted (h : Again limit ms cs vs) (hkept : ∀ v ∈ vs, v.fate ≠ .discarded)
    (hnames : (vs.filter (·.fate == .hoisted)).map (some ·.declaration.name) = ms.map title?)
    (hrest : (withoutItems (gone vs) 0 0 (ms.map some ++ cs)).length = cs.length) {v : Verdict}
    (hv : v ∈ vs) (hf : v.fate = .hoisted) : v.declaration.leads ms.length = true := by
  have hcount : (vs.filter (·.fate == .hoisted)).length = ms.length := by
    simpa using congrArg List.length hnames
  obtain ⟨k, hplace⟩ := place_of_hoisted hkept hcount hrest v hv hf
  have hall := h.accounts.all_reached hkept
  rw [declarationsItems_append] at hall
  obtain ⟨front, behind, rfl, hfront, -⟩ := List.map_eq_append_iff.mp hall
  rcases List.mem_append.mp hv with hv | hv
  · obtain ⟨x, p, hx, hlt⟩ := ends_items 0 0 (ms.map some) v.declaration
      (hfront ▸ List.mem_map_of_mem hv)
    rw [hplace] at hx
    cases hx
    simpa [Declaration.leads, hplace] using hlt
  · -- behind the front its name is not new
    have htitle : some v.declaration.name ∈ ms.map title? := by
      rw [← hnames]
      exact List.mem_map.mpr ⟨v, List.mem_filter.mpr
        ⟨List.mem_append_right _ hv, beq_iff_eq.mpr hf⟩, rfl⟩
    obtain ⟨m, hm, htitle⟩ := List.mem_map.mp htitle
    obtain ⟨d, hd, hname⟩ := exists_of_title hm htitle 0 0
    obtain ⟨before, after, rfl⟩ := List.append_of_mem hv
    have hjudged := h.accounts.judged
    rw [← List.append_assoc] at hjudged
    refine absurd hname ((hjudged.hoisted_iff.mp hf).2 d ?_)
    rw [List.map_append, hfront]
    exact List.mem_append_left _ hd

theorem led_of_same (h : Again limit ms cs vs) (hkept : ∀ v ∈ vs, v.fate ≠ .discarded)
    (hnames : (vs.filter (·.fate == .hoisted)).map (some ·.declaration.name) = ms.map title?)
    (hrest : (withoutItems (gone vs) 0 0 (ms.map some ++ cs)).length = cs.length) :
    Led ms.length vs := by
  have hsub : (vs.filter (·.fate == .hoisted)).Sublist
      (vs.filter (·.declaration.leads ms.length)) := by
    have hboth : vs.filter (·.fate == .hoisted) =
        (vs.filter (·.declaration.leads ms.length)).filter (·.fate == .hoisted) := by
      rw [List.filter_filter]
      refine List.filter_congr fun v hv => ?_
      cases hf : v.fate == .hoisted with
      | true => rw [h.leads_of_hoisted hkept hnames hrest hv (beq_iff_eq.mp hf)]; rfl
      | false => rfl
    rw [hboth]
    exact List.filter_sublist
  have hcount : (vs.filter (·.fate == .hoisted)).length = ms.length := by
    simpa using congrArg List.length hnames
  have hfront : (vs.filter (·.declaration.leads ms.length)).length = ms.length := by
    have hpairs := congrArg List.length (filter_leads h.titled cs 0)
    rw [Nat.zero_add, ← h.accounts.all_reached hkept, List.filter_map] at hpairs
    simpa [Function.comp_def] using hpairs
  have heq := hsub.eq_of_length (hcount.trans hfront.symm)
  refine fun v hv => ⟨hkept v hv, fun hf => h.leads_of_hoisted hkept hnames hrest hv hf, fun hleads => ?_⟩
  have hmem : v ∈ vs.filter (·.fate == .hoisted) := heq ▸ List.mem_filter.mpr ⟨hv, hleads⟩
  exact beq_iff_eq.mp (List.mem_filter.mp hmem).2

end Again

theorem titles_moved {limit depth : Nat} {seen : List String} {inList : Bool} {n : Node}
    {vs : List Verdict} (h : Accounts limit depth seen (declarations inList n) vs) :
    (moved vs).map title? = (vs.filter (·.fate == .hoisted)).map (some ·.declaration.name) := by
  rw [moved, List.map_map]
  refine List.map_congr_left fun v hv => ?_
  obtain ⟨hname, -⟩ := declared inList n _ (h.mem (List.mem_filter.mp hv).1)
  change title? (without _ v.declaration.node) = _
  generalize v.declaration.node = m at hname ⊢
  obtain ⟨t, hd, ss⟩ := m
  exact (functionName?_without _ hd ss).trans hname

theorem hasName_moved {limit depth : Nat} {seen : List String} {inList : Bool} {n : Node}
    {vs : List Verdict} (h : Accounts limit depth seen (declarations inList n) vs)
    (hn : n.Every HasName) : ∀ m ∈ moved vs, m.Every HasName := by
  intro m hm
  obtain ⟨v, hv, rfl⟩ := List.mem_map.mp hm
  obtain ⟨-, hnode⟩ := declared inList n _ (h.mem (List.mem_filter.mp hv).1)
  exact hasName_without _ (hn.below hnode)

/-- The first call leaves the functions at the front and what was found to be unresolved. -/
theorem again_of_lifts {limit : Nat} {t : Tag} {body : List (Option Node)} {vs vs' : List Verdict}
    (h : Lifts limit 0 [] (declarations false (program t body)) vs
      (some (program t (withoutItems (gone vs) 0 0 body)))
      (liftNode limit false 0 [] (program t body)))
    (h' : Accounts limit 0 [] (declarations false
      (program t ((moved vs).map some ++ withoutItems (gone vs) 0 0 body))) vs') :
    Again limit (moved vs) (withoutItems (gone vs) 0 0 body) vs' where
  titled := by
    intro m hm
    have htitle := List.mem_map_of_mem (f := title?) hm
    rw [titles_moved h.accounts] at htitle
    obtain ⟨v, -, hname⟩ := List.mem_map.mp htitle
    rw [← hname]
    rfl
  uplifted := (liftNode_shallow _ (absurd · Bool.false_ne_true) h.result).2
  shallow := by
    obtain ⟨q, hq, hrest⟩ : ∃ q, liftNode limit false 0 [] (program t body) = .ok q ∧
        q.rest = some (program t (withoutItems (gone vs) 0 0 body)) := ⟨_, h.result, rfl⟩
    cases liftNode_iff.mp hq with
    | kept _ _ hslots =>
      obtain ⟨a, ha, b, hb, rfl⟩ := liftSlots_items_iff.mp hslots
      cases hb
      have hbody : withoutItems (gone vs) 0 0 body = a.rest := by simpa using hrest.symm
      rw [hbody]
      exact (liftItems_shallow body ha).1 0
    | dropped | moved => cases hrest
  accounts := declarations_program t _ ▸ h'

theorem names_findings (vs : List Verdict) (f : Fate) : Report.names (vs.map (·.finding 0)) f =
    (vs.filter (·.fate == f)).map (·.declaration.name) := by
  rw [Report.names, select_findings, List.map_map]
  rfl

theorem kept_iff {vs : List Verdict} : Report.select (vs.map (·.finding 0)) .discarded = [] ↔
    ∀ v ∈ vs, v.fate ≠ .discarded := by
  simp [select_findings]

theorem names_eq_iff {vs vs' : List Verdict} :
    Report.names (vs'.map (·.finding 0)) .hoisted = Report.names (vs.map (·.finding 0)) .hoisted ↔
      (vs'.filter (·.fate == .hoisted)).map (some ·.declaration.name) =
        (vs.filter (·.fate == .hoisted)).map (some ·.declaration.name) := by
  have hsome (ws : List Verdict) :
      ws.map (some ·.declaration.name) = (ws.map (·.declaration.name)).map some := by
    rw [List.map_map]
    rfl
  rw [names_findings, names_findings, hsome, hsome]
  exact (List.map_inj_right fun _ _ => Option.some.inj).symm

/-- Hoisting twice is hoisting once exactly if, in the tree that the first call leaves, the
declarations in lists that come first of their names are the functions at the front. -/
theorem hoist_twice_iff (limit : Nat) (t : Tag) (body : List (Option Node))
    (hnames : (program t body).Every HasName) :
    ∃ (tree : Node) (r : Report) (tree' : Node) (r' : Report),
      hoist limit (program t body) = (tree, .ok r) ∧ hoist limit tree = (tree', .ok r') ∧
      ((tree' = tree ∧ r'.select .discarded = [] ∧ r'.names .hoisted = r.names .hoisted) ↔
        Settled (r.names .hoisted).length (declarations false tree)) := by
  obtain ⟨vs, hlifts, hhoist⟩ := hoist_program limit t hnames
  have hnames' : (program t ((moved vs).map some ++ withoutItems (gone vs) 0 0 body)).Every HasName := by
    refine every_mk.mpr ⟨nofun, everySlots_many.mpr ⟨everyItems_append.mpr ⟨?_, ?_⟩, everySlots_nil⟩⟩
    · exact everyItems_map.mpr (hasName_moved hlifts.accounts hnames)
    · exact hasName_withoutItems 0 0 body (everySlots_many.mp (every_mk.mp hnames).2).1
  obtain ⟨vs', hlifts', hhoist'⟩ := hoist_program limit t hnames'
  have hagain := again_of_lifts hlifts hlifts'.accounts
  have hlength : (Report.names (vs.map (·.finding 0)) .hoisted).length = (moved vs).length := by
    rw [names_findings, moved, List.length_map, List.length_map]
  refine ⟨_, _, _, _, hhoist, hhoist', ?_⟩
  rw [hlength, declarations_program, kept_iff, names_eq_iff, ← titles_moved hlifts.accounts]
  constructor
  · rintro ⟨htree, hkept, htitles⟩
    have hbody : (moved vs').map some ++ withoutItems (gone vs') 0 0
        ((moved vs).map some ++ withoutItems (gone vs) 0 0 body) =
          (moved vs).map some ++ withoutItems (gone vs) 0 0 body := by simpa using htree
    have hcount : (moved vs').length = (moved vs).length := by
      simpa [moved] using congrArg List.length htitles
    refine hagain.settled_of_led (hagain.led_of_same hkept htitles ?_)
    have hlengths := congrArg List.length hbody
    rw [List.length_append, List.length_append, List.length_map, List.length_map, hcount] at hlengths
    exact Nat.add_left_cancel hlengths
  · intro hsettled
    have hled := hagain.led_of_settled hsettled
    have hmoved := hagain.moved_eq hled
    refine ⟨?_, fun v hv => (hled v hv).1, ?_⟩
    · rw [hmoved, hagain.withoutItems_eq hled]
    · rw [← titles_moved hlifts'.accounts, hmoved]

theorem hoist_twice_fourFates : (program (.fresh none) fourFates).Every HasName ∧
    ∃ (tree : Node) (r : Report) (tree' : Node) (r' : Report),
      hoist 1 (program (.fresh none) fourFates) = (tree, .ok r) ∧ hoist 1 tree = (tree', .ok r') ∧
      ((tree' = tree ∧ r'.select .discarded = [] ∧ r'.names .hoisted = r.names .hoisted) ↔
        Settled (r.names .hoisted).length (declarations false tree)) :=
  ⟨by decide, hoist_twice_iff 1 (.fresh none) fourFates (by decide)⟩

/-- A pinned function is the first of its name, until a function that has another one of the same name
inside it moves to the front of it. -/
def overtaken : Node :=
  program (.fresh none) ([guarded (function "f" []), function "g" [function "f" []]].map some)

def uncovered : Node :=
  program (.fresh none) [some (function "a" [function "b" [], guarded (function "b" [])])]

/-- The second call lifts a function that the first one left, and it may drop a function that the
first one had lifted. -/
theorem hoist_twice_changes :
    (hoist 100 overtaken).2.map (·.names .hoisted) = .ok ["g"] ∧
    (hoist 100 (hoist 100 overtaken).1).2.map (·.names .hoisted) = .ok ["g", "f"] ∧
    (hoist 0 uncovered).2.map (·.names .hoisted) = .ok ["a", "b"] ∧
    (hoist 0 (hoist 0 uncovered).1).2.map (·.select .discarded) = .ok [("b", 1)] := by
  have hfirst : hoist 100 overtaken =
      (program (.fresh none) ([function "g" [function "f" []], guarded (function "f" [])].map some),
        .ok [⟨.pinned, "f", 2⟩, ⟨.hoisted, "g", 1⟩, ⟨.unresolved, "f", 3⟩]) := by cbv
  have hsecond : hoist 100 (program (.fresh none)
        ([function "g" [function "f" []], guarded (function "f" [])].map some)) =
      (program (.fresh none) ([function "g" [], function "f" [], guarded (function "f" [])].map some),
        .ok [⟨.hoisted, "g", 1⟩, ⟨.hoisted, "f", 3⟩, ⟨.unresolved, "f", 2⟩]) := by cbv
  have hfirst' : hoist 0 uncovered =
      (program (.fresh none) ([function "a" [guarded (function "b" [])], function "b" []].map some),
        .ok [⟨.hoisted, "a", 1⟩, ⟨.hoisted, "b", 3⟩, ⟨.unresolved, "b", 4⟩]) := by cbv
  have hsecond' : hoist 0 (program (.fresh none)
        ([function "a" [guarded (function "b" [])], function "b" []].map some)) =
      (program (.fresh none) ([function "a" [guarded (function "b" [])]].map some),
        .ok [⟨.hoisted, "a", 1⟩, ⟨.pinned, "b", 4⟩, ⟨.discarded, "b", 1⟩]) := by cbv
  rw [hfirst, hsecond, hfirst', hsecond']
  exact ⟨rfl, rfl, rfl, rfl⟩

end Unravel.Hoist
