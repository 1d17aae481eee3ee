import Mathlib.Algebra.GroupWithZero.Nat
import Mathlib.Data.List.Induction
import TypedResources.Proofs.Survival
import TypedResources.Report.Reporter

/-! Reports and the log. The reporter of a group logs each diagnostic that it is told of, and the
reporter of the run logs nothing of what it takes over from the groups. So a run logs a warning for each
diagnostic of its output and for nothing else, in the same order. -/
namespace TypedResources

namespace Reporter

/-- A table that says of each id how often it occurs. -/
structure Tallies (ids : List String) (table : List (String × Nat)) : Prop where
  distinct : (table.map (·.1)).Nodup
  each : ∀ id, table.lookup id = if id ∈ ids then some (ids.count id) else none
  total : (table.map (·.2)).sum = ids.length

theorem keys_tally (table : List (String × Nat)) (id : String) :
    (tally table id).map (·.1) =
      if id ∈ table.map (·.1) then table.map (·.1) else table.map (·.1) ++ [id] := by
  induction table with
  | nil => simp [tally]
  | cons entry rest ih =>
    obtain ⟨known,n⟩ := entry
    by_cases h : known = id
    · simp [tally,h]
    · simp only [tally,h,if_false,List.map_cons,ih,List.mem_cons,Ne.symm h,false_or]
      split <;> simp

theorem nodup_tally {table : List (String × Nat)} (h : (table.map (·.1)).Nodup) (id : String) :
    ((tally table id).map (·.1)).Nodup := by
  rw [keys_tally]
  split
  · exact h
  · rename_i hnew
    exact List.nodup_append.mpr ⟨h,List.nodup_singleton id,fun a ha b hb hab =>
      hnew (List.mem_singleton.mp hb ▸ hab ▸ ha)⟩

theorem lookup_tally (table : List (String × Nat)) (id other : String) :
    (tally table id).lookup other =
      if other = id then some ((table.lookup id).getD 0 + 1) else table.lookup other := by
  induction table with
  | nil =>
    by_cases h : other = id
    · simp [tally,h]
    · simp [tally,List.lookup_cons,h,beq_eq_false_iff_ne.mpr h]
  | cons entry rest ih =>
    obtain ⟨known,n⟩ := entry
    by_cases hknown : known = id
    · by_cases hother : other = id
      · simp [tally,hknown,hother]
      · simp [tally,hknown,List.lookup_cons,hother,beq_eq_false_iff_ne.mpr hother]
    · have hid : (id == known) = false := beq_eq_false_iff_ne.mpr (Ne.symm hknown)
      rw [tally,if_neg hknown,List.lookup_cons,ih,List.lookup_cons,List.lookup_cons,hid]
      by_cases hother : other = id
      · simp [hother,hid]
      · simp [hother]

theorem sum_tally (table : List (String × Nat)) (id : String) :
    ((tally table id).map (·.2)).sum = (table.map (·.2)).sum + 1 := by
  induction table with
  | nil => rfl
  | cons entry rest ih =>
    obtain ⟨known,n⟩ := entry
    by_cases h : known = id
    · simp only [tally,h,if_true,List.map_cons,List.sum_cons]
      omega
    · simp only [tally,h,if_false,List.map_cons,List.sum_cons,ih]
      omega

/-- One more occurrence of an id is counted for that id. -/
theorem Tallies.tally {ids : List String} {table : List (String × Nat)} (h : Tallies ids table)
    (id : String) : Tallies (ids ++ [id]) (tally table id) where
  distinct := nodup_tally h.distinct id
  each other := by
    rw [lookup_tally,h.each,h.each]
    by_cases hsame : other = id
    · by_cases hid : id ∈ ids
      · simp [hsame,hid]
      · simp [hsame,hid,List.count_eq_zero.mpr hid]
    · simp [hsame,Ne.symm hsame]
  total := by rw [sum_tally,h.total,List.length_append,List.length_singleton]

theorem tallies_foldl (ids : List String) : Tallies ids (ids.foldl Reporter.tally []) := by
  induction ids using List.reverseRecOn with
  | nil => exact ⟨List.nodup_nil,fun _ => by simp,rfl⟩
  | append_singleton ids id ih =>
    rw [List.foldl_append]
    exact ih.tally id

inductive Call
  | report (d : Diagnostic)
  | extend (ds : List Diagnostic)

def Call.diagnostics : Call → List Diagnostic
  | report d => [d]
  | extend ds => ds

/-- The diagnostics that a call has logged: those taken over were logged elsewhere. -/
def Call.logged : Call → List Diagnostic
  | report d => [d]
  | extend _ => []

def answer (r : Reporter) : Call → Reporter
  | .report d => r.report d
  | .extend ds => r.extend ds

def after (calls : List Call) : Reporter := calls.foldl answer empty

/-- A reporter holds what the calls handed over, in their order, and counts it by id. -/
structure Collects (calls : List Call) (r : Reporter) : Prop where
  diagnostics : r.diagnostics = calls.flatMap (·.diagnostics)
  log : r.log = (calls.flatMap (·.logged)).map (·.logRecord)
  counts : Tallies (r.diagnostics.map (·.id)) r.counts

theorem answer_diagnostics (r : Reporter) (call : Call) :
    (r.answer call).diagnostics = r.diagnostics ++ call.diagnostics := by
  cases call <;> rfl

theorem answer_log (r : Reporter) (call : Call) :
    (r.answer call).log = r.log ++ call.logged.map (·.logRecord) := by
  cases call with
  | report d => rfl
  | extend ds => simp [answer,Call.logged]

/-- A call adds what it hands over and what it has logged. -/
theorem Collects.answer {calls : List Call} {r : Reporter} (h : Collects calls r) (call : Call) :
    Collects (calls ++ [call]) (r.answer call) where
  diagnostics := by
    rw [answer_diagnostics,h.diagnostics,List.flatMap_append,List.flatMap_singleton]
  log := by
    rw [answer_log,h.log,List.flatMap_append,List.flatMap_singleton,List.map_append]
  counts := tallies_foldl _

theorem collects_after (calls : List Call) : Collects calls (after calls) := by
  induction calls using List.reverseRecOn with
  | nil => exact ⟨rfl,rfl,tallies_foldl _⟩
  | append_singleton calls call ih =>
    rw [after,List.foldl_append]
    exact ih.answer call

end Reporter

namespace Trace

variable {α β : Type}

def warnings (t : Trace α) : List LogRecord := t.log.filter (·.level = .warning)

theorem warnings_andThen {t : Trace α} {a : α} (h : t.result = .ok a)
    (next : α → Bool → Trace β) :
    (t.andThen next).warnings = t.warnings ++ (next a t.cancelled).warnings := by
  rw [warnings,log_andThen_of_ok h,List.filter_append]
  rfl

theorem warnings_logged (records : List LogRecord) (t : Trace α) :
    (t.logged records).warnings = records.filter (·.level = .warning) ++ t.warnings := by
  rw [warnings,logged_log,List.filter_append]
  rfl

end Trace

namespace Reporter

/-- The warnings in the log are the diagnostics, in their order. -/
def Candid (r : Reporter) : Prop :=
  r.log.filter (·.level = .warning) = r.diagnostics.map (·.logRecord)

theorem candid_empty : empty.Candid := rfl

variable {r : Reporter} (h : r.Candid)
include h

theorem Candid.report (d : Diagnostic) : (r.report d).Candid := by
  rw [Candid,Reporter.report,List.filter_append,List.map_append,h]
  rfl

theorem Candid.note {record : LogRecord} (hrecord : record.level ≠ .warning) :
    (r.note record).Candid := by
  rw [Candid,Reporter.note,List.filter_append,h]
  simp [hrecord]

theorem Candid.reportAll (ds : List Diagnostic) : (r.reportAll ds).Candid := by
  induction ds generalizing r with
  | nil => exact h
  | cons d ds ih => exact ih (h.report d)

theorem Candid.choose (options : Options) (paths : List String) :
    (Settings.choose options paths r).2.Candid := by
  rw [Settings.choose_eq]
  exact h.reportAll _

/-- A group's settings are resolved candidly. -/
theorem Candid.resolveWith (current : String) (options : Options) (assemblyName : Option Label)
    (g : ResourceGroup) :
    (Settings.resolveWith current options assemblyName g r).2.Candid := by
  unfold Settings.resolveWith
  have hchosen := h.choose options g.paths
  cases hc : Settings.choose options g.paths r with
  | mk choices reporter =>
    rw [hc] at hchosen
    simp only
    split
    · rw [Settings.reportNames_eq]
      exact hchosen.reportAll _
    · exact hchosen

/-- Files are gone through candidly. -/
theorem Candid.pass (merged : List Entry) (cancelled : Bool) (files : List ResourceFile) :
    (Loading.pass merged cancelled r files).reporter.Candid := by
  induction files generalizing merged cancelled with
  | nil => exact h
  | cons f rest ih =>
    simp only [Loading.pass]
    split
    · exact ih _ _
    · exact ih _ _
    · exact (h.note (by simp)).report _
    · exact h

end Reporter

namespace Generate

/-- A group warns of what it reports. -/
theorem warnings_group {job : Job} {g : ResourceGroup} {cancelled : Bool}
    {made : Artifact × List Diagnostic} (h : (group job g cancelled).result = .ok made) :
    (group job g cancelled).warnings = made.2.map (·.logRecord) := by
  have hopened : (Reporter.empty.note (groupRecord g)).Candid :=
    Reporter.candid_empty.note (by simp [groupRecord])
  have hresolved := hopened.resolveWith job.current job.options job.assemblyName g
  unfold group at h ⊢
  cases hs : Settings.resolveWith job.current job.options job.assemblyName g
    (Reporter.empty.note (groupRecord g)) with
  | mk found reporter =>
    rw [hs] at h hresolved
    cases found with
    | error failure => cases h
    | ok settings =>
      obtain ⟨artifact,-,rfl⟩ := (Except.map_eq_ok_iff _ _ _).mp h
      exact hresolved.pass [] cancelled (ResourceGroup.sortFiles g.files)

theorem warnings_groups {job : Job} {cancelled : Bool} {gs : List ResourceGroup}
    {made : List (Artifact × List Diagnostic)} (h : (groups job cancelled gs).result = .ok made) :
    (groups job cancelled gs).warnings = (made.flatMap (·.2)).map (·.logRecord) := by
  induction gs generalizing cancelled made with
  | nil =>
    obtain rfl := Except.ok.inj h
    rfl
  | cons g rest ih =>
    obtain ⟨m,ms,rfl,hm,hms,-,-⟩ := groups_cons_of_ok h
    rw [groups,Trace.warnings_andThen hm,warnings_group hm,List.flatMap_cons,List.map_append]
    exact congrArg _ (ih hms)

theorem gatherer_eq_after (made : List (Artifact × List Diagnostic)) :
    gatherer made = Reporter.after (made.map fun m => .extend m.2) := by
  rw [Reporter.after,List.foldl_map]
  rfl

/-- The reporter of a run logs nothing again. -/
theorem log_gatherer (made : List (Artifact × List Diagnostic)) : (gatherer made).log = [] := by
  rw [gatherer_eq_after,(Reporter.collects_after _).log,List.flatMap_map]
  simp [Reporter.Call.logged]

/-- A run that ends normally warns of each diagnostic of its output once, in their order, and of
nothing else. Reporters collect and count what they are told and what they take over. -/
theorem run_logs_each_report_once {job : Job} {files : List ResourceFile} {cancelled : Bool}
    {out : Output} (h : (run job files cancelled).result = .ok out) :
    (run job files cancelled).warnings =
        out.diagnostics.map (fun d => ⟨.warning,.reporting,d.id ++ ": " ++ d.message⟩) ∧
      ∀ calls, Reporter.Collects calls (Reporter.after calls) := by
  refine ⟨?_,Reporter.collects_after⟩
  rw [run_result] at h
  obtain ⟨made,hmade,rfl⟩ := (Except.map_eq_ok_iff _ _ _).mp h
  rw [gather_eq,run,Trace.warnings_logged,Trace.warnings_andThen hmade,warnings_groups hmade]
  simp only [Trace.warnings,log_gatherer,List.filter_nil,List.append_nil]
  rfl

def missingFile : ResourceFile := ⟨"a.resx",false,.error .notFound⟩

theorem missingFile_logged_once :
    ∃ out, (run namingJob [missingFile] false).result = .ok out ∧
      (run namingJob [missingFile] false).warnings =
        out.diagnostics.map (fun d => ⟨.warning,.reporting,d.id ++ ": " ++ d.message⟩) ∧
      ∀ calls, Reporter.Collects calls (Reporter.after calls) := by
  have hcontained : FailContained [missingFile] := by
    simp [FailContained,missingFile,ReadFault.isContained]
  have hshort : ∀ f ∈ [missingFile], ∀ e ∈ Loading.declarations f, ¬ e.IsOverlong := by
    simp [missingFile,Loading.declarations,Loading.contribution,ReadFault.isContained,
      Loading.added]
  obtain ⟨out,hout,-⟩ := run_isOk (by simp [namingJob]) hcontained
    (not_someEndsRun hshort namingJob false)
  exact ⟨out,hout,run_logs_each_report_once hout⟩

end Generate
end TypedResources
