import TypedResources.General.Except
import TypedResources.Proofs.Loading
import TypedResources.Proofs.Resolution
import TypedResources.Run.Generate

/-! What a run is made of: each group gives its settings, loads its files and makes an artifact, and
the output gathers what the groups give in their order. -/
namespace TypedResources

namespace Generate

theorem group_of_failure {job : Job} {g : ResourceGroup} {failure : Failure}
    (h : Settings.resolve job.current job.options job.assemblyName g = .error failure)
    (cancelled : Bool) : (group job g cancelled).result = .error failure ∧
      (group job g cancelled).cancelled = cancelled := by
  rw [group,Settings.resolveWith_of_error h]
  exact ⟨rfl,rfl⟩

/-- With its settings found, a group does what loading does and then makes the artifact. -/
theorem group_of_settings {job : Job} {g : ResourceGroup} {settings : Settings}
    {early : List Diagnostic}
    (h : Settings.resolve job.current job.options job.assemblyName g = .ok (settings,early))
    (cancelled : Bool) :
    (group job g cancelled).result = (Loading.load g cancelled).result.bind (fun loaded =>
        (artifact job g settings loaded.entries).map (·,early ++ loaded.diagnostics)) ∧
      (group job g cancelled).cancelled = (Loading.load g cancelled).cancelled ∧
      (group job g cancelled).asked = (Loading.load g cancelled).asked := by
  rw [group,Settings.resolveWith_of_ok h]
  simp only
  rw [Loading.loadWith,Loading.pass_eq]
  refine ⟨?_,rfl,rfl⟩
  rw [Loading.load,Loading.loadWith,Loading.Pass.loaded]
  simp only [Reporter.followedBy,Reporter.reportAll_diagnostics,Reporter.note_diagnostics,
    Reporter.empty,List.nil_append]
  cases (Loading.pass [] cancelled ⟨[],[]⟩ (ResourceGroup.sortFiles g.files)).result <;> rfl

/-- A group's result is made from its settings and from what its files load to. -/
theorem group_result_eq_ok (job : Job) (g : ResourceGroup) (cancelled : Bool)
    (made : Artifact × List Diagnostic) :
    (group job g cancelled).result = .ok made ↔
      ∃ settings early loaded,
        Settings.resolve job.current job.options job.assemblyName g = .ok (settings,early) ∧
        (Loading.load g cancelled).result = .ok loaded ∧
        artifact job g settings loaded.entries = .ok made.1 ∧
        made.2 = early ++ loaded.diagnostics := by
  cases hs : Settings.resolve job.current job.options job.assemblyName g with
  | error failure =>
    rw [(group_of_failure hs cancelled).1]
    simp
  | ok found =>
    obtain ⟨settings,early⟩ := found
    rw [(group_of_settings hs cancelled).1]
    constructor
    · intro h
      obtain ⟨loaded,hl,h⟩ := Except.bind_eq_ok_iff.mp h
      obtain ⟨a,ha,rfl⟩ := (Except.map_eq_ok_iff _ _ _).mp h
      exact ⟨settings,early,loaded,rfl,hl,ha,rfl⟩
    · rintro ⟨_,_,loaded,hfound,hl,ha,hd⟩
      obtain ⟨rfl,rfl⟩ := Prod.mk.inj (Except.ok.inj hfound)
      rw [hl,Except.bind,ha,← hd]
      rfl

theorem artifact_hintName {job : Job} {g : ResourceGroup} {settings : Settings}
    {entries : Option (List Entry)} {a : Artifact} (h : artifact job g settings entries = .ok a) :
    a.hintName = artifactName g.key := by
  obtain ⟨c,-,rfl⟩ := (Except.map_eq_ok_iff _ _ _).mp h
  rfl

theorem group_hintName {job : Job} {g : ResourceGroup} {cancelled : Bool}
    {made : Artifact × List Diagnostic} (h : (group job g cancelled).result = .ok made) :
    made.1.hintName = artifactName g.key := by
  obtain ⟨_,_,_,-,-,ha,-⟩ := (group_result_eq_ok job g cancelled made).mp h
  exact artifact_hintName ha

/-- A first group and the others give what all of them give. -/
theorem groups_cons_of_ok {job : Job} {cancelled : Bool} {g : ResourceGroup}
    {rest : List ResourceGroup} {made : List (Artifact × List Diagnostic)}
    (h : (groups job cancelled (g :: rest)).result = .ok made) :
    ∃ m ms, made = m :: ms ∧ (group job g cancelled).result = .ok m ∧
      (groups job (group job g cancelled).cancelled rest).result = .ok ms ∧
      (groups job cancelled (g :: rest)).cancelled =
        (groups job (group job g cancelled).cancelled rest).cancelled ∧
      (groups job cancelled (g :: rest)).asked =
        (group job g cancelled).asked ++
          (groups job (group job g cancelled).cancelled rest).asked := by
  simp only [groups,Trace.andThen_result_eq_ok,Trace.map_result,Except.map_eq_ok_iff] at h
  obtain ⟨m,hm,ms,hms,rfl⟩ := h
  refine ⟨m,ms,rfl,hm,hms,?_,?_⟩
  · rw [groups,(Trace.andThen_of_ok hm _).2,Trace.map_cancelled]
  · rw [groups,Trace.asked_andThen_of_ok hm,Trace.map_asked]

theorem group_cancelled {g : ResourceGroup} (h : LeaveToken g.files) (job : Job)
    (cancelled : Bool) : (group job g cancelled).cancelled = cancelled := by
  cases hs : Settings.resolve job.current job.options job.assemblyName g with
  | error failure => exact (group_of_failure hs cancelled).2
  | ok found => rw [(group_of_settings hs cancelled).2.1,Loading.load_cancelled h]

/-- Groups whose hosts leave the token alone are worked off each on its own. -/
theorem groups_result_eq_ok {gs : List ResourceGroup} (h : ∀ g ∈ gs, LeaveToken g.files)
    (job : Job) (cancelled : Bool) (made : List (Artifact × List Diagnostic)) :
    (groups job cancelled gs).result = .ok made ↔
      List.Forall₂ (fun g m => (group job g cancelled).result = .ok m) gs made := by
  induction gs generalizing made with
  | nil => simp [groups,eq_comm]
  | cons g rest ih =>
    have hg : LeaveToken g.files := h g (by simp)
    have hrest : ∀ g ∈ rest, LeaveToken g.files := fun x hx => h x (by simp [hx])
    simp only [groups,Trace.andThen_result_eq_ok,Trace.map_result,Except.map_eq_ok_iff,
      group_cancelled hg,ih hrest,List.forall₂_cons_left_iff]
    constructor
    · rintro ⟨m,hm,ms,hms,rfl⟩
      exact ⟨m,ms,hm,hms,rfl⟩
    · rintro ⟨m,ms,hm,hms,rfl⟩
      exact ⟨m,hm,ms,hms,rfl⟩

theorem extend_foldl (made : List (Artifact × List Diagnostic)) (r : Reporter) :
    (made.foldl (fun r m => Reporter.extend r m.2) r).diagnostics =
      r.diagnostics ++ made.flatMap (·.2) := by
  induction made generalizing r with
  | nil => simp
  | cons m rest ih => simp [ih]

theorem gather_eq (made : List (Artifact × List Diagnostic)) :
    gather made = ⟨made.map (·.1),made.flatMap (·.2)⟩ := by
  simp [gather,gatherer,extend_foldl,Reporter.empty]

theorem run_result (job : Job) (files : List ResourceFile) (cancelled : Bool) :
    (run job files cancelled).result =
      (groups job cancelled (ResourceGroup.ofAll files)).result.map gather := by
  rw [run,Trace.logged_result,Trace.andThen]
  cases (groups job cancelled (ResourceGroup.ofAll files)).result <;> rfl

theorem run_asked (job : Job) (files : List ResourceFile) (cancelled : Bool) :
    (run job files cancelled).asked = (groups job cancelled (ResourceGroup.ofAll files)).asked := by
  rw [run,Trace.logged_asked,Trace.andThen]
  cases (groups job cancelled (ResourceGroup.ofAll files)).result with
  | error failure => rfl
  | ok made => exact List.append_nil _

theorem run_result_eq_ok {files : List ResourceFile} (h : LeaveToken files) (job : Job)
    (cancelled : Bool) (out : Output) :
    (run job files cancelled).result = .ok out ↔
      ∃ made, List.Forall₂ (fun g m => (group job g cancelled).result = .ok m)
          (ResourceGroup.ofAll files) made ∧
        out = ⟨made.map (·.1),made.flatMap (·.2)⟩ := by
  have hgs : ∀ g ∈ ResourceGroup.ofAll files, LeaveToken g.files := fun _ => h.of_mem_ofAll
  simp only [run_result,Except.map_eq_ok_iff,groups_result_eq_ok hgs,gather_eq]
  simp only [eq_comm]

end Generate
end TypedResources
