import ModernC.Framework.PostOrder
import Mathlib.Data.List.Induction
import Mathlib.Data.List.Perm.Subperm

/-!
# Emitting in dependency order

Units name the units that they depend on.  A pass emits every unit whose names have been emitted,
passes follow until one emits nothing, and what is left then comes in the order it was given in.
Which units are emitted by a pass does not depend on that order.
-/

namespace ModernC.Framework.DependencyOrder

variable {U N : Type} [DecidableEq N] (name : U → N) (deps : U → List N)

/-! ## The passes -/

/-- The names that the unit depends on have been emitted. -/
def satisfied (out : List U) (u : U) : Bool := (deps u).all fun d => (out.map name).contains d

/-- One pass over the remaining units: what has been emitted then, and what remains. -/
def pass : List U → List U → List U × List U
  | [], out => (out, [])
  | u :: rest, out =>
    if satisfied name deps out u then pass rest (out ++ [u])
    else ((pass rest out).1, u :: (pass rest out).2)

/-- Passes, as long as they emit something. -/
def schedule (rest out : List U) : List U :=
  if (pass name deps rest out).2.length < rest.length then
    schedule (pass name deps rest out).2 (pass name deps rest out).1
  else (pass name deps rest out).1 ++ (pass name deps rest out).2
termination_by rest.length

/-- Every unit is behind the names that it depends on. -/
abbrev Supported (units : List U) : Prop := PostOrder.Ordered name (fun u n => n ∈ deps u) units

variable {name deps}

variable {out rest done stuck front units : List U} {u : U}

lemma satisfied_iff :
    satisfied name deps out u = true ↔ ∀ d ∈ deps u, d ∈ out.map name := by
  simp only [satisfied, List.all_eq_true, List.contains_iff_mem]

/-- What a run of passes has done: units behind those that were emitted before, each supported,
and the units that remain, in the order that they had. -/
structure Runs (name : U → N) (deps : U → List N) (rest out done stuck : List U) : Prop where
  grows : out <+: done
  perm : (done ++ stuck).Perm (out ++ rest)
  keeps : stuck.Sublist rest
  supported : Supported name deps out → Supported name deps done

omit [DecidableEq N] in
lemma Runs.trans {rest' out' : List U} (h : Runs name deps rest out out' rest')
    (h' : Runs name deps rest' out' done stuck) :
    Runs name deps rest out done stuck :=
  ⟨h.grows.trans h'.grows, h'.perm.trans h.perm, h'.keeps.trans h.keeps,
    fun hout => h'.supported (h.supported hout)⟩

/-- **One pass.** -/
lemma pass_runs (name : U → N) (deps : U → List N) (rest out : List U) :
    Runs name deps rest out (pass name deps rest out).1
      (pass name deps rest out).2 := by
  induction rest generalizing out with
  | nil => exact ⟨List.prefix_refl _, .refl _, .refl _, id⟩
  | cons u rest ih =>
    rw [pass]
    split
    · next hsatisfied =>
      obtain ⟨hgrows, hperm, hkeeps, hsupported⟩ := ih (out ++ [u])
      refine ⟨(List.prefix_append _ _).trans hgrows, ?_, hkeeps.cons u, fun hout => ?_⟩
      · simpa using hperm
      · exact hsupported (hout.concat (satisfied_iff.mp hsatisfied))
    · obtain ⟨hgrows, hperm, hkeeps, hsupported⟩ := ih out
      refine ⟨hgrows, ?_, hkeeps.cons_cons u, hsupported⟩
      exact List.perm_middle.trans ((hperm.cons u).trans List.perm_middle.symm)

/-- A pass that emits nothing leaves no satisfied unit behind. -/
lemma pass_stuck (h : rest.length ≤ (pass name deps rest out).2.length) :
    (pass name deps rest out).1 = out ∧ ∀ u ∈ rest, satisfied name deps out u = false := by
  induction rest with
  | nil => exact ⟨rfl, nofun⟩
  | cons u rest ih =>
    rw [pass] at h ⊢
    split at h
    · have hlength := (pass_runs name deps rest (out ++ [u])).keeps.length_le
      rw [List.length_cons] at h
      omega
    · next hunsatisfied =>
      rw [if_neg hunsatisfied]
      obtain ⟨hout, hrest⟩ := ih (by simpa using h)
      refine ⟨hout, fun v hv => ?_⟩
      rcases List.mem_cons.mp hv with rfl | hv
      · exact Bool.not_eq_true _ ▸ hunsatisfied
      · exact hrest v hv

/-- **All passes:** what they emit, with the rest behind it, none of which is satisfied. -/
lemma schedule_runs (name : U → N) (deps : U → List N) (rest out : List U) :
    ∃ done stuck, schedule name deps rest out = done ++ stuck ∧
      Runs name deps rest out done stuck ∧
      ∀ u ∈ stuck, satisfied name deps done u = false := by
  induction rest, out using schedule.induct name deps with
  | case1 rest out hlt ih =>
    obtain ⟨done, stuck, hschedule, hruns, hstuck⟩ := ih
    rw [schedule, if_pos hlt]
    exact ⟨done, stuck, hschedule, (pass_runs name deps rest out).trans hruns, hstuck⟩
  | case2 rest out hge =>
    obtain ⟨hout, hrest⟩ := pass_stuck (Nat.not_lt.mp hge)
    have hruns := pass_runs name deps rest out
    rw [schedule, if_neg hge]
    refine ⟨_, _, rfl, hruns, fun u hu => ?_⟩
    rw [hout]
    exact hrest u (hruns.keeps.subset hu)

/-- Every unit is emitted once. -/
theorem schedule_perm (name : U → N) (deps : U → List N) (order : List U) :
    (schedule name deps order []).Perm order := by
  obtain ⟨done, stuck, hschedule, hruns, -⟩ :=
    schedule_runs name deps order []
  rw [hschedule]
  exact hruns.perm

/-! ## What is emitted by a pass -/

/-- The unit depends on the other one, which is among the units. -/
def Needs (name : U → N) (deps : U → List N) (units : List U) (u v : U) : Prop :=
  v ∈ units ∧ name v ∈ deps u

/-- All that the unit depends on, and all that this depends on, is among the units, and no unit on
the way depends on itself. -/
inductive Ready (name : U → N) (deps : U → List N) (units : List U) : U → Prop
  | intro {u : U} (hu : u ∈ units) (provider : N → U)
      (hname : ∀ d ∈ deps u, name (provider d) = d)
      (hready : ∀ d ∈ deps u, Ready name deps units (provider d)) : Ready name deps units u

omit [DecidableEq N] in
lemma Supported.of_append (h : Supported name deps (front ++ rest)) :
    Supported name deps front := by
  intro before u after heq n hn
  refine h before u (after ++ rest) ?_ n hn
  rw [heq, List.append_assoc, List.cons_append]

omit [DecidableEq N] in
/-- What is supported is ready. -/
lemma ready_of_supported (h : Supported name deps done)
    (hunits : ∀ v ∈ done, v ∈ units) (hu : u ∈ done) : Ready name deps units u := by
  induction done using List.reverseRecOn generalizing u with
  | nil => exact absurd hu List.not_mem_nil
  | append_singleton done last ih =>
    have hdone : ∀ {v : U}, v ∈ done → Ready name deps units v :=
      ih h.of_append fun v hv => hunits v (List.mem_append_left _ hv)
    rcases List.mem_append.mp hu with hu | hu
    · exact hdone hu
    · obtain rfl := List.mem_singleton.mp hu
      have hprovider : ∀ d, ∃ v, d ∈ deps u → v ∈ done ∧ name v = d := by
        intro d
        by_cases hd : d ∈ deps u
        · obtain ⟨v, hv, hname⟩ := List.mem_map.mp (h done u [] rfl d hd)
          exact ⟨v, fun _ => ⟨hv, hname⟩⟩
        · exact ⟨u, fun h => absurd h hd⟩
      choose provider hprovider using hprovider
      exact .intro (hunits u (List.mem_append_right _ hu)) provider (fun d hd => (hprovider d hd).2)
        fun d hd => hdone (hprovider d hd).1

/-- What is ready is emitted by a pass. -/
lemma mem_done_of_ready (hunits : ∀ v ∈ units, v ∈ done ++ stuck)
    (hstuck : ∀ v ∈ stuck, satisfied name deps done v = false)
    (h : Ready name deps units u) : u ∈ done := by
  induction h with
  | @intro u hu provider hname _ ih =>
    rcases List.mem_append.mp (hunits u hu) with hu | hu
    · exact hu
    · have hsatisfied : satisfied name deps done u = true :=
        satisfied_iff.mpr fun d hd => List.mem_map.mpr ⟨provider d, ih d hd, hname d hd⟩
      exact absurd hsatisfied (by simp [hstuck u hu])

omit [DecidableEq N] in
/-- Everything that a unit depends on, over any number of steps, is in front of it. -/
lemma mem_before_of_needs {before after : List U} {v : U}
    (hinjective : ∀ u ∈ units, ∀ v ∈ units, name u = name v → u = v)
    (h : Supported name deps done) (hunits : ∀ v ∈ done, v ∈ units)
    (hneeds : Relation.TransGen (Needs name deps units) u v)
    (hdone : done = before ++ u :: after) : name v ∈ before.map name := by
  induction hneeds using Relation.TransGen.head_induction_on generalizing before after with
  | single hneeds => exact h before _ after hdone _ hneeds.2
  | @head u w hneeds _ ih =>
    obtain ⟨w', hw', hname⟩ := List.mem_map.mp (h before u after hdone _ hneeds.2)
    have hmem : w' ∈ done := hdone ▸ List.mem_append_left _ hw'
    obtain rfl := hinjective w' (hunits w' hmem) w hneeds.1 hname
    obtain ⟨before', after', rfl⟩ := List.append_of_mem hw'
    have hbefore : name v ∈ before'.map name := by
      have hplace : done = before' ++ w' :: (after' ++ u :: after) := by
        rw [hdone, List.append_assoc, List.cons_append]
      exact ih hplace
    rw [List.map_append]
    exact List.mem_append_left _ hbefore

/-- The first pass emits supported units in their order. -/
lemma pass_supported (h : Supported name deps (out ++ front)) :
    pass name deps (front ++ rest) out = pass name deps rest (out ++ front) := by
  induction front generalizing out with
  | nil => rw [List.append_nil, List.nil_append]
  | cons u front ih =>
    have hsatisfied : satisfied name deps out u = true := satisfied_iff.mpr (h out u front rfl)
    rw [List.cons_append, pass, if_pos hsatisfied, ih (by simpa using h), List.append_assoc,
      List.singleton_append]

/-- Supported units at the beginning stay there. -/
lemma prefix_schedule (h : Supported name deps front) (rest : List U) :
    front <+: schedule name deps (front ++ rest) [] := by
  have hpass : pass name deps (front ++ rest) [] = pass name deps rest front :=
    pass_supported h
  have hfront := (pass_runs name deps rest front).grows
  rw [schedule, hpass]
  split
  · obtain ⟨done, stuck, hschedule, hruns, -⟩ := schedule_runs name deps
      (pass name deps rest front).2 (pass name deps rest front).1
    rw [hschedule]
    exact hfront.trans (hruns.grows.trans (List.prefix_append _ _))
  · exact hfront.trans (List.prefix_append _ _)

omit [DecidableEq N] in
/-- Supported units stay supported without those that none of the others depends on. -/
lemma supported_filter (h : Supported name deps done) {keeps : U → Bool}
    (hkeeps : ∀ u ∈ done, keeps u = true → ∀ v ∈ done, name v ∈ deps u → keeps v = true) :
    Supported name deps (done.filter keeps) := by
  induction done using List.reverseRecOn with
  | nil => exact h
  | append_singleton done last ih =>
    have hdone := ih h.of_append fun u hu hkeep v hv =>
      hkeeps u (List.mem_append_left _ hu) hkeep v (List.mem_append_left _ hv)
    rw [List.filter_append]
    by_cases hlast : keeps last = true
    · rw [List.filter_cons_of_pos hlast, List.filter_nil]
      refine hdone.concat fun d hd => ?_
      obtain ⟨v, hv, rfl⟩ := List.mem_map.mp (h done last [] rfl d hd)
      have hkeep := hkeeps last (List.mem_append_right _ (List.mem_singleton_self _)) hlast v
        (List.mem_append_left _ hv) hd
      exact List.mem_map_of_mem (List.mem_filter.mpr ⟨hv, hkeep⟩)
    · rw [List.filter_cons_of_neg hlast, List.filter_nil, List.append_nil]
      exact hdone

/-! ## When every order is right -/

/-- A place in one list after the other one is a place in one of them. -/
lemma place_of_append {before after : List U} (h : done ++ stuck = before ++ u :: after) :
    (∃ rest, done = before ++ u :: rest) ∨ ∃ rest, before = done ++ rest := by
  rcases List.append_eq_append_iff.mp h with ⟨rest, hbefore, -⟩ | ⟨rest, hdone, hafter⟩
  · exact .inr ⟨rest, hbefore⟩
  · cases rest with
    | nil => exact .inr ⟨[], by simpa using hdone.symm⟩
    | cons w rest =>
      obtain ⟨rfl, -⟩ := List.cons.inj hafter
      exact .inl ⟨rest, hdone⟩

/-- **Containing units come behind contained ones in every order** exactly if a contained unit is
ready, and what a ready unit contains is among the units that it depends on over some steps. -/
theorem schedule_ordered_iff {contains : U → N → Prop} (hnodup : (units.map name).Nodup) :
    (∀ order : List U, order.Perm units →
      PostOrder.Ordered name (fun u n => contains u n ∧ n ∈ units.map name)
        (schedule name deps order [])) ↔
      ∀ u ∈ units, ∀ v ∈ units, contains u (name v) →
        Ready name deps units v ∧
          (Ready name deps units u → Relation.TransGen (Needs name deps units) u v) := by
  have hinjective : ∀ u ∈ units, ∀ v ∈ units, name u = name v → u = v :=
    fun u hu v hv => List.inj_on_of_nodup_map hnodup hu hv
  have hempty : Supported name deps ([] : List U) := by
    intro before u after h
    exact absurd h (by simp)
  constructor
  · intro hordered u hu v hv hcontains
    -- in every run the contained unit is in front of the other one
    have hbefore : ∀ {order before after : List U}, order.Perm units →
        schedule name deps order [] = before ++ u :: after → v ∈ before := by
      intro order before after horder hschedule
      obtain ⟨w, hw, hname⟩ := List.mem_map.mp (hordered order horder before u after hschedule
        (name v) ⟨hcontains, List.mem_map_of_mem hv⟩)
      have hmem : w ∈ units := by
        refine ((schedule_perm name deps order).trans horder).mem_iff.mp ?_
        rw [hschedule]
        exact List.mem_append_left _ hw
      rwa [← hinjective w hmem v hv hname]
    have hunits : ∀ {order done stuck : List U}, order.Perm units →
        Runs name deps order [] done stuck → ∀ w ∈ done, w ∈ units := by
      intro order done stuck horder hruns w hw
      refine horder.mem_iff.mp ?_
      have hmem := hruns.perm.mem_iff.mp (List.mem_append_left stuck hw)
      simpa using hmem
    constructor
    · -- the containing unit comes first, so the contained one is emitted by a pass
      obtain ⟨front, rest, rfl⟩ := List.append_of_mem hu
      have horder : (u :: (front ++ rest)).Perm (front ++ u :: rest) := List.perm_middle.symm
      have hfirst : u ∉ front ++ rest := by
        have hcons := (horder.map name).nodup_iff.mpr hnodup
        rw [List.map_cons, List.nodup_cons] at hcons
        exact fun hmem => hcons.1 (List.mem_map_of_mem hmem)
      obtain ⟨done, stuck, hschedule, hruns, -⟩ :=
        schedule_runs name deps (u :: (front ++ rest)) []
      have hsupported := hruns.supported hempty
      refine ready_of_supported hsupported (hunits horder hruns) ?_
      have hmem : u ∈ done ++ stuck := hruns.perm.mem_iff.mpr (by simp)
      rcases List.mem_append.mp hmem with hdone | hstuck
      · obtain ⟨before, after, rfl⟩ := List.append_of_mem hdone
        rw [List.append_assoc, List.cons_append] at hschedule
        exact List.mem_append_left _ (hbefore horder hschedule)
      · have hhead : ∃ stuck', stuck = u :: stuck' := by
          rcases List.sublist_cons_iff.mp hruns.keeps with hsublist | ⟨stuck', rfl, -⟩
          · exact absurd (hsublist.subset hstuck) hfirst
          · exact ⟨stuck', rfl⟩
        obtain ⟨stuck', rfl⟩ := hhead
        exact hbefore horder hschedule
    · -- what the unit does not depend on comes behind it
      intro hready
      classical
      let needed : U → Bool := fun w =>
        decide (Relation.ReflTransGen (Needs name deps units) u w)
      obtain ⟨done, stuck, -, hruns, hstuck⟩ :=
        schedule_runs name deps units []
      have hperm : (done ++ stuck).Perm units := by simpa using hruns.perm
      have hdone := hunits (.refl _) hruns
      have hsupported : Supported name deps (done.filter needed) := by
        refine supported_filter (hruns.supported hempty) fun w _ hw x hx hdep => ?_
        exact decide_eq_true ((of_decide_eq_true hw).tail ⟨hdone x hx, hdep⟩)
      have hu' : u ∈ done.filter needed := by
        refine List.mem_filter.mpr ⟨?_, decide_eq_true .refl⟩
        exact mem_done_of_ready (fun w hw => hperm.mem_iff.mpr hw) hstuck hready
      have horder : (done.filter needed ++ (done.filter (fun w => !needed w) ++ stuck)).Perm
          units := by
        rw [← List.append_assoc]
        exact ((List.filter_append_perm needed done).append_right stuck).trans hperm
      obtain ⟨before, after, hsplit⟩ := List.append_of_mem hu'
      obtain ⟨tail, htail⟩ := prefix_schedule hsupported (done.filter (fun w => !needed w) ++ stuck)
      have hv' : v ∈ before := by
        have hplace : schedule name deps
            (done.filter needed ++ (done.filter (fun w => !needed w) ++ stuck)) [] =
              before ++ u :: (after ++ tail) := by
          rw [← htail, hsplit, List.append_assoc, List.cons_append]
        exact hbefore horder hplace
      have hreaches : Relation.ReflTransGen (Needs name deps units) u v := by
        have hmem : v ∈ done.filter needed := hsplit ▸ List.mem_append_left _ hv'
        exact of_decide_eq_true (List.mem_filter.mp hmem).2
      rcases Relation.reflTransGen_iff_eq_or_transGen.mp hreaches with rfl | hneeds
      · -- no unit is in front of itself
        have hnames := (horder.map name).nodup_iff.mpr hnodup
        rw [hsplit] at hnames
        simp only [List.map_append, List.append_assoc] at hnames
        have hdisjoint := List.disjoint_of_nodup_append hnames
        exact absurd (by simp) (hdisjoint (List.mem_map_of_mem hv'))
      · exact hneeds
  · intro hready order horder before u after hschedule n ⟨hcontains, hn⟩
    obtain ⟨v, hv, rfl⟩ := List.mem_map.mp hn
    obtain ⟨done, stuck, hruns', hruns, hstuck⟩ :=
      schedule_runs name deps order []
    have hmem : ∀ w ∈ units, w ∈ done ++ stuck := by
      intro w hw
      refine hruns.perm.mem_iff.mpr ?_
      simpa using horder.mem_iff.mpr hw
    have hdone : ∀ w ∈ done, w ∈ units := by
      intro w hw
      refine horder.mem_iff.mp ?_
      simpa using hruns.perm.mem_iff.mp (List.mem_append_left stuck hw)
    have hu : u ∈ units := by
      refine ((schedule_perm name deps order).trans horder).mem_iff.mp ?_
      rw [hschedule]
      simp
    obtain ⟨hreadyV, hneeds⟩ := hready u hu v hv hcontains
    have hvDone := mem_done_of_ready hmem hstuck hreadyV
    rcases place_of_append (hruns'.symm.trans hschedule) with ⟨rest, hsplit⟩ | ⟨rest, hsplit⟩
    · have huDone : u ∈ done := by simp [hsplit]
      exact mem_before_of_needs hinjective (hruns.supported hempty) hdone
        (hneeds (ready_of_supported (hruns.supported hempty) hdone huDone)) hsplit
    · rw [hsplit]
      exact List.mem_map_of_mem (List.mem_append_left _ hvDone)

end ModernC.Framework.DependencyOrder
