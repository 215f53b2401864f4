import PayloadGate.Run.Descriptor
import PayloadGate.Proofs.Json.Spelling
import PayloadGate.Proofs.Time.Stamps
import Mathlib.Data.List.Perm.Basic

/-! # Reading run descriptors that were written

The members of an object may stand in any order, and members that nobody asks for may stand between them.

* **`Holds`** — the objects that have given members; **`record?_of_holds`** — their fields are found.
* **`Labels.ofList_of_perm`** — a map is told by its entries, in whatever order they stand.
* **`Descriptor.Written`** — the written forms of a descriptor `d`.
* **`Descriptor.ReadsBack`**, **`Descriptor.readsBack_of_datable`** — each of them is read as `d.settled`, which is `d`
  but for leap seconds within a minute.
* **`Descriptor.exists_datable_not_readBack`** — with such a leap second another descriptor is read. -/

namespace PayloadGate

open Json (Value)
open Time (Instant)

variable {v : Value} {known : List (String × Value)} {members others : List (Option String × Value)}

/-! ## Labels -/

namespace Labels

variable {labels : Labels} {name value : String} {es : List (String × String)}

/-- A value for a new `name` is one more entry: up to the order, the entries are the old ones and it. -/
theorem perm_putEntry (h : name ∉ es.map (·.1)) : (putEntry name value es).Perm ((name, value) :: es) := by
  induction es with
  | nil => exact .refl _
  | cons e es ih =>
    obtain ⟨hne, hrest⟩ := not_or.1 (List.mem_cons.not.1 h)
    rw [putEntry]
    split_ifs with hlt hgt
    · exact .refl _
    · exact ((ih hrest).cons e).trans (.swap _ _ _)
    · exact absurd (String.le_antisymm (String.not_lt.1 hgt) (String.not_lt.1 hlt)) hne

/-- **Entries with different names are the entries of their map**, up to their order. -/
theorem perm_entries_ofList (h : (es.map (·.1)).Nodup) : (ofList es).entries.Perm es := by
  -- entries are put in one by one, so that the induction is for any map to which the others are still to come
  have hfold : ∀ (es : List (String × String)) (labels : Labels), ((labels.entries ++ es).map (·.1)).Nodup
      → (es.foldl (fun labels e => labels.insert e.1 e.2) labels).entries.Perm (labels.entries ++ es) := by
    intro es
    induction es with
    | nil => intro labels _; rw [List.append_nil]; exact .refl _
    | cons e es ih =>
      intro labels hnodup
      have hnew : e.1 ∉ labels.entries.map (·.1) := by
        rw [List.map_append, List.map_cons] at hnodup
        exact fun hmem => (List.nodup_append.1 hnodup).2.2 e.1 hmem e.1 List.mem_cons_self rfl
      have hput : (labels.insert e.1 e.2).entries.Perm (e :: labels.entries) := perm_putEntry hnew
      have hall : ((labels.insert e.1 e.2).entries ++ es).Perm (labels.entries ++ e :: es) :=
        (hput.append_right es).trans List.perm_middle.symm
      exact (ih _ ((hall.map _).nodup_iff.2 hnodup)).trans hall
  exact hfold es empty h

/-- The names of a map are different, since they ascend strictly. -/
theorem nodup_names (labels : Labels) : (labels.entries.map (·.1)).Nodup := by
  rw [List.Nodup, List.pairwise_map]
  exact labels.ascending.imp fun {a b} (hlt : a.1 < b.1) (heq : a.1 = b.1) => String.lt_irrefl b.1 (heq ▸ hlt)

/-- **A map is told by its entries**, in whatever order they stand: `ofList es = labels`. -/
theorem ofList_of_perm (h : es.Perm labels.entries) : ofList es = labels := by
  have hnodup : (es.map (·.1)).Nodup := (h.map _).nodup_iff.2 labels.nodup_names
  have hperm : (ofList es).entries.Perm labels.entries := (perm_entries_ofList hnodup).trans h
  have heq : (ofList es).entries = labels.entries :=
    hperm.eq_of_pairwise (fun a b _ _ hlt hgt => absurd (String.lt_trans hlt hgt) (String.lt_irrefl _))
      (ofList es).ascending labels.ascending
  cases hlabels : ofList es
  rw [hlabels] at heq
  cases labels
  cases heq
  rfl

end Labels

/-! ## Members -/

/-- **The objects that have given members `known`**, in any order and with others between them, which have other
names. -/
def Holds (known : List (String × Value)) (v : Value) : Prop :=
  ∃ members others, v = .object members ∧ members.Perm (known.map (fun m => (some m.1, m.2)) ++ others)
    ∧ ∀ m ∈ others, ∃ name, m.1 = some name ∧ name ∉ known.map (·.1)

namespace Descriptor

/-- A name stands once among different names: filtering by it leaves its member alone. -/
theorem filter_name (hnodup : (known.map (·.1)).Nodup) {m : String × Value} (hm : m ∈ known) :
    (known.map fun m => (some m.1, m.2)).filter (·.1 = some m.1) = [(some m.1, m.2)] := by
  induction known with
  | nil => exact absurd hm List.not_mem_nil
  | cons x known ih =>
    obtain ⟨hx, hrest⟩ := List.nodup_cons.1 hnodup
    rcases List.mem_cons.1 hm with rfl | hmem
    · have hnone : (known.map fun m => (some m.1, m.2)).filter (·.1 = some m.1) = [] := by
        rw [List.filter_eq_nil_iff]
        intro y hy heq
        obtain ⟨z, hz, rfl⟩ := List.mem_map.1 hy
        exact hx (List.mem_map.2 ⟨z, hz, Option.some.inj (of_decide_eq_true heq)⟩)
      rw [List.map_cons, List.filter_cons_of_pos (by simp), hnone]
    · have hne : ¬ x.1 = m.1 := fun heq => hx (List.mem_map.2 ⟨m, hmem, heq.symm⟩)
      rw [List.map_cons, List.filter_cons_of_neg (by simpa using hne), ih hrest hmem]

/-- **A member is found by its name**, wherever it stands among the others. -/
theorem field?_of_perm (hnodup : (known.map (·.1)).Nodup)
    (hperm : members.Perm (known.map (fun m => (some m.1, m.2)) ++ others))
    (hothers : ∀ m ∈ others, ∃ name, m.1 = some name ∧ name ∉ known.map (·.1)) {m : String × Value} (hm : m ∈ known) :
    field? members m.1 = some (some m.2) := by
  have hnone : others.filter (·.1 = some m.1) = [] := by
    rw [List.filter_eq_nil_iff]
    intro x hx heq
    obtain ⟨name, hname, hnew⟩ := hothers x hx
    rw [hname] at heq
    exact hnew (Option.some.inj (of_decide_eq_true heq) ▸ List.mem_map_of_mem hm)
  have hfound : members.filter (·.1 = some m.1) = [(some m.1, m.2)] := by
    have hfiltered := hperm.filter (·.1 = some m.1)
    rw [List.filter_append, filter_name hnodup hm, hnone, List.append_nil] at hfiltered
    exact List.perm_singleton.1 hfiltered
  rw [field?, hfound]

/-- **The fields of a record are found** in an object that has them, in the order of `known`. -/
theorem record?_of_holds (h : Holds known v) (hnodup : (known.map (·.1)).Nodup) :
    record? (known.map (·.1)) v = some (known.map fun m => some m.2) := by
  obtain ⟨members, others, rfl, hperm, hothers⟩ := h
  have hnames : members.all (·.1.isSome) = true := by
    rw [List.all_eq_true]
    intro m hm
    rcases List.mem_append.1 (hperm.mem_iff.1 hm) with hknown | hother
    · obtain ⟨x, -, rfl⟩ := List.mem_map.1 hknown
      rfl
    · obtain ⟨name, hname, -⟩ := hothers m hother
      rw [hname]
      rfl
  -- the list of the names asked for shrinks, while the members stay
  have hfields : ∀ asked, asked ⊆ known
      → (asked.map (·.1)).mapM (field? members) = some (asked.map fun m => some m.2) := by
    intro asked hasked
    induction asked with
    | nil => rfl
    | cons m asked ih =>
      obtain ⟨hm, hrest⟩ := List.cons_subset.1 hasked
      rw [List.map_cons, List.mapM_cons, field?_of_perm hnodup hperm hothers hm, ih hrest]
      rfl
  rw [record?, if_pos hnames, hfields known (List.Subset.refl known)]

/-! ## Written forms -/

/-- **The written forms of a descriptor**: its members stand in objects, in any order and with others between them, and
its labels in any order. -/
def Written (d : Descriptor) (v : Value) : Prop :=
  ∃ (metadata spec status : Value) (entries : List (String × String)),
    Holds [("metadata", metadata), ("spec", spec), ("status", status)] v
    ∧ Holds [("name", .text (some d.name)), ("labels", .object (entries.map fun e => textMember e.1 e.2)),
      ("creationTimestamp", .text (some d.created.zuluStamp))] metadata
    ∧ entries.Perm d.labels.entries
    ∧ Holds [("job", .text (some d.job)), ("cluster", .text (some d.cluster))] spec
    ∧ Holds [("state", .text (some d.state)), ("startTime", instantValue d.started),
      ("completionTime", instantValue d.completed)] status

/-- The times of a descriptor: `created`, and `started` and `completed` when they are there. -/
def times (d : Descriptor) : List Instant := d.created :: (d.started.toList ++ d.completed.toList)

/-- **What the timestamps of a descriptor tell**: the descriptor with each time `settled`. -/
def settled (d : Descriptor) : Descriptor :=
  { d with created := d.created.settled, started := d.started.map Instant.settled,
           completed := d.completed.map Instant.settled }

/-- The three times of a descriptor, as far as they are there, are among `d.times`. -/
theorem mem_times (d : Descriptor) :
    d.created ∈ d.times ∧ (∀ t ∈ d.started, t ∈ d.times) ∧ ∀ t ∈ d.completed, t ∈ d.times := by
  refine ⟨List.mem_cons_self, fun t ht => ?_, fun t ht => ?_⟩
  · exact List.mem_cons_of_mem _ (List.mem_append_left _ (Option.mem_toList.2 ht))
  · exact List.mem_cons_of_mem _ (List.mem_append_right _ (Option.mem_toList.2 ht))

/-- **All times are told** but leap seconds within a minute: without these, `d.settled = d`. -/
theorem settled_eq_self {d : Descriptor} (h : ∀ t ∈ d.times, ¬ t.leapsWithinMinute) : d.settled = d := by
  have hsame : ∀ o : Option Instant, (∀ t ∈ o, ¬ t.leapsWithinMinute) → o.map Instant.settled = o := by
    intro o ho
    cases o with
    | none => rfl
    | some t => exact congrArg some (Instant.settled_of_not_leapsWithinMinute (ho t rfl))
  obtain ⟨hcreated, hstarted, hcompleted⟩ := d.mem_times
  rw [settled, Instant.settled_of_not_leapsWithinMinute (h _ hcreated), hsame _ fun t ht => h t (hstarted t ht),
    hsame _ fun t ht => h t (hcompleted t ht)]

/-- The labels are read, in whatever order `es` they stand. -/
theorem labelsField?_of_perm {labels : Labels} {es : List (String × String)} (h : es.Perm labels.entries) :
    labelsField? (some (.object (es.map fun e => textMember e.1 e.2))) = some labels := by
  have hentries : (es.map fun e => textMember e.1 e.2).mapM
      (fun m : Option String × Value => do some ((← m.1), (← text? m.2))) = some es := by
    rw [List.mapM_map]
    exact (List.mapM_pure (m := Option) (f := id)).trans (congrArg some (List.map_id _))
  rw [labelsField?, hentries, Option.bind_eq_bind, Option.bind_some, Labels.ofList_of_perm h]

/-- A timestamp that was written is read as `t.settled`. -/
theorem instant?_zuluStamp {t : Instant} (h : t.Datable) : instant? (.text (some t.zuluStamp)) = some t.settled := by
  rw [instant?, text?, Option.bind_eq_bind, Option.bind_some, Instant.ofLax?_zuluStamp h]

/-- A time that was written is read, a missing one as `null`. -/
theorem instantField?_instantValue {o : Option Instant} (h : ∀ t ∈ o, t.Datable) :
    instantField? (some (instantValue o)) = some (o.map Instant.settled) := by
  cases o with
  | none => rfl
  | some t => simp only [instantValue, instantField?, instant?_zuluStamp (h t rfl), Option.map_some]

/-- The part with the name, the labels and the creation time is read from any object that has them. -/
theorem ofMetadata?_of_holds {name : String} {labels : Labels} {created : Instant} {es : List (String × String)}
    (hes : es.Perm labels.entries) (hcreated : created.Datable)
    (h : Holds [("name", .text (some name)), ("labels", .object (es.map fun e => textMember e.1 e.2)),
      ("creationTimestamp", .text (some created.zuluStamp))] v) :
    ofMetadata? v = some (name, labels, created.settled) := by
  have hrecord : record? ["name", "labels", "creationTimestamp"] v
      = some [some (.text (some name)), some (.object (es.map fun e => textMember e.1 e.2)),
        some (.text (some created.zuluStamp))] := record?_of_holds h (by simp)
  simp only [ofMetadata?, hrecord, textField?, text?, labelsField?_of_perm hes, instant?_zuluStamp hcreated,
    Option.bind_eq_bind, Option.bind_some]

/-- The part with the job and the cluster is read from any object that has them. -/
theorem ofSpec?_of_holds {job cluster : String}
    (h : Holds [("job", .text (some job)), ("cluster", .text (some cluster))] v) :
    ofSpec? (some v) = some (job, cluster) := by
  have hrecord : record? ["job", "cluster"] v = some [some (.text (some job)), some (.text (some cluster))] :=
    record?_of_holds h (by simp)
  simp only [ofSpec?, hrecord, textField?, text?, Option.bind_eq_bind, Option.bind_some]

/-- The part with the state and the times is read from any object that has them. -/
theorem ofStatus?_of_holds {state : String} {started completed : Option Instant} (hstarted : ∀ t ∈ started, t.Datable)
    (hcompleted : ∀ t ∈ completed, t.Datable)
    (h : Holds [("state", .text (some state)), ("startTime", instantValue started),
      ("completionTime", instantValue completed)] v) :
    ofStatus? (some v) = some (state, started.map Instant.settled, completed.map Instant.settled) := by
  have hrecord : record? ["state", "startTime", "completionTime"] v
      = some [some (.text (some state)), some (instantValue started), some (instantValue completed)] :=
    record?_of_holds h (by simp)
  simp only [ofStatus?, hrecord, textField?, text?, instantField?_instantValue hstarted,
    instantField?_instantValue hcompleted, Option.bind_eq_bind, Option.bind_some]

/-- **A written form is read as the descriptor**, as far as its timestamps tell: `ofJson? v = some d.settled`. -/
theorem ofJson?_of_written {d : Descriptor} (hd : ∀ t ∈ d.times, t.Datable) (h : d.Written v) :
    ofJson? v = some d.settled := by
  obtain ⟨metadata, spec, status, entries, htop, hmetadata, hentries, hspec, hstatus⟩ := h
  obtain ⟨hcreated, hstarted, hcompleted⟩ := d.mem_times
  have hrecord : record? ["metadata", "spec", "status"] v = some [some metadata, some spec, some status] :=
    record?_of_holds htop (by simp)
  simp only [ofJson?, hrecord, ofMetadata?_of_holds hentries (hd _ hcreated) hmetadata, ofSpec?_of_holds hspec,
    ofStatus?_of_holds (fun t ht => hd t (hstarted t ht)) (fun t ht => hd t (hcompleted t ht)) hstatus,
    Option.bind_eq_bind, Option.bind_some]
  rfl

/-- An object with just the members `known` has them. -/
theorem holds_object (known : List (String × Value)) : Holds known (.object (known.map fun m => (some m.1, m.2))) :=
  ⟨_, [], rfl, by rw [List.append_nil], fun _ hm => absurd hm List.not_mem_nil⟩

/-- **The form in which a descriptor is written**, `d.toJson`, is one of its written forms. -/
theorem written_toJson (d : Descriptor) : d.Written d.toJson :=
  ⟨_, _, _, d.labels.entries, holds_object [("metadata", _), ("spec", _), ("status", _)],
    holds_object [("name", _), ("labels", _), ("creationTimestamp", _)], .refl _,
    holds_object [("job", _), ("cluster", _)], holds_object [("state", _), ("startTime", _), ("completionTime", _)]⟩

/-- A time that is written has a spelling, and so has `null`. -/
theorem isSpelled_instantValue (o : Option Instant) : (instantValue o).IsSpelled := by
  cases o with
  | none => exact .null
  | some t => exact .text _

/-- **The form in which a descriptor is written has a spelling**, `d.toJson.IsSpelled`. -/
theorem isSpelled_toJson (d : Descriptor) : d.toJson.IsSpelled := by
  have hlabels : ∀ es : List (String × String), (Value.object (es.map fun e => textMember e.1 e.2)).IsSpelled := by
    intro es
    induction es with
    | nil => exact Value.isSpelled_empty
    | cons e es ih => exact .member e.1 (.text e.2) ih
  have hmetadata : (Value.object [textMember "name" d.name,
      (some "labels", .object (d.labels.entries.map fun e => textMember e.1 e.2)),
      textMember "creationTimestamp" d.created.zuluStamp]).IsSpelled :=
    .member "name" (.text _) (.member "labels" (hlabels _)
      (.member "creationTimestamp" (.text _) Value.isSpelled_empty))
  have hspec : (Value.object [textMember "job" d.job, textMember "cluster" d.cluster]).IsSpelled :=
    .member "job" (.text _) (.member "cluster" (.text _) Value.isSpelled_empty)
  have hstatus : (Value.object [textMember "state" d.state, (some "startTime", instantValue d.started),
      (some "completionTime", instantValue d.completed)]).IsSpelled :=
    .member "state" (.text _) (.member "startTime" (isSpelled_instantValue _)
      (.member "completionTime" (isSpelled_instantValue _) Value.isSpelled_empty))
  exact .member "metadata" hmetadata (.member "spec" hspec (.member "status" hstatus Value.isSpelled_empty))

/-! ## Reading back -/

/-- **Whatever bytes spell a written form**, they are read as `d.settled`. -/
theorem ofBytes_of_written {d : Descriptor} (hd : ∀ t ∈ d.times, t.Datable) (hv : d.Written v) {bytes : List UInt8}
    (hparse : Json.parse bytes = some v) : ofBytes bytes = .ok d.settled := by
  rw [ofBytes, hparse]
  simp only [ofJson?_of_written hd hv]

/-- The bytes that are written for a descriptor are read as `d.settled`. -/
theorem ofBytes_render_toJson {d : Descriptor} (hd : ∀ t ∈ d.times, t.Datable) :
    ofBytes (String.ofList (Json.render d.toJson)).toUTF8.toList = .ok d.settled :=
  ofBytes_of_written hd d.written_toJson (Json.parse_render d.isSpelled_toJson)

/-- **A descriptor that was written is read**: as `d.settled`, from what is written for it and from any spelling of any
of its written forms, and as the descriptor itself when no timestamp leaps within a minute. -/
structure ReadsBack (d : Descriptor) : Prop where
  /-- **Whatever bytes spell a written form**, they are read as what the timestamps tell of the descriptor. -/
  read : ∀ v, d.Written v → ∀ bytes, Json.parse bytes = some v → ofBytes bytes = .ok d.settled
  /-- The bytes that are written for a form spell it. -/
  spelled : ∀ v, d.Written v → v.IsSpelled → ofBytes (String.ofList (Json.render v)).toUTF8.toList = .ok d.settled
  /-- **The descriptor itself is written** as one of these forms, and read from it. -/
  encoded : d.Written d.toJson ∧ ofBytes (String.ofList (Json.render d.toJson)).toUTF8.toList = .ok d.settled
  /-- **This is the descriptor**, when leap seconds are the last seconds of their minutes. -/
  same : (∀ t ∈ d.times, ¬ t.leapsWithinMinute) → d.settled = d
  /-- In any case it has the same labels, and is finished when the descriptor is. -/
  told : d.settled.labels = d.labels ∧ d.settled.isFinished = d.isFinished

/-- **A descriptor that was written is read**, in whatever order its members stand and whatever else stands between
them, when its times are in the years from 0 to 9999. -/
theorem readsBack_of_datable {d : Descriptor} (hd : ∀ t ∈ d.times, t.Datable) : d.ReadsBack := by
  refine ⟨fun v hv bytes => ofBytes_of_written hd hv,
    fun v hv hspelled => ofBytes_of_written hd hv (Json.parse_render hspelled),
    ⟨d.written_toJson, ofBytes_render_toJson hd⟩, settled_eq_self, ⟨rfl, ?_⟩⟩
  rw [isFinished, settled, Option.isSome_map]
  rfl

/-- A run that was created in the year 0, and started in a leap second. -/
def leapRun : Descriptor :=
  { name := "run \"4.11\"\n", labels := .ofList [("payload", "\u00e9\\"), ("release", "4.11")],
    created := ⟨-62167219200, 123456789⟩, job := "", cluster := "build02", state := "pending",
    started := some ⟨1483228799, 1500000000⟩, completed := none }

/-- One of the written forms of `leapRun`: all members stand in the opposite order, behind further ones. -/
def leapRunForm : Value :=
  .object [(some "kind", .list [.number "-1.5e+3", .null, .text (some "\u0001")]),
    (some "status", .object [(some "started", .bool true), (some "completionTime", .null),
      textMember "startTime" "2016-12-31T23:59:60.500Z", textMember "state" "pending"]),
    (some "spec", .object [(some "agent", .object []), textMember "cluster" "build02", textMember "job" ""]),
    (some "metadata", .object [(some "Name", .null),
      textMember "creationTimestamp" "0000-01-01T00:00:00.123456789Z",
      (some "labels", .object [textMember "release" "4.11", textMember "payload" "\u00e9\\"]),
      textMember "name" "run \"4.11\"\n"])]

/-- The opposite order is an order, and a member of another name may stand before it. -/
theorem holds_reverse (known : List (String × Value)) {name : String} (hname : name ∉ known.map (·.1)) (extra : Value) :
    Holds known (.object ((some name, extra) :: (known.map fun m => (some m.1, m.2)).reverse)) := by
  refine ⟨_, [(some name, extra)], rfl, ?_, ?_⟩
  · exact ((List.reverse_perm _).cons _).trans (List.perm_append_singleton _ _).symm
  · exact fun m hm => ⟨name, by rw [List.mem_singleton.1 hm], hname⟩

/-- `leapRunForm` is a written form of `leapRun`. -/
theorem written_leapRunForm : leapRun.Written leapRunForm := by
  have hcreated : leapRun.created.zuluStamp = "0000-01-01T00:00:00.123456789Z" := by decide
  have hstarted : instantValue leapRun.started = .text (some "2016-12-31T23:59:60.500Z") :=
    congrArg (fun s => Value.text (some s)) (by decide)
  have hlabels : [("release", "4.11"), ("payload", "\u00e9\\")].Perm leapRun.labels.entries := by decide
  rw [Written, hcreated, hstarted]
  exact ⟨_, _, _, _, holds_reverse [("metadata", _), ("spec", _), ("status", _)] (by simp) _,
    holds_reverse [("name", _), ("labels", _), ("creationTimestamp", _)] (by simp) _, hlabels,
    holds_reverse [("job", _), ("cluster", _)] (by simp) _,
    holds_reverse [("state", _), ("startTime", _), ("completionTime", _)] (by simp) _⟩

/-- `leapRunForm` has a spelling. -/
theorem isSpelled_leapRunForm : leapRunForm.IsSpelled := by
  have hnumber : Json.IsNumber "-1.5e+3".toList :=
    ⟨['-'], ['1'], ['.', '5'], ['e', '+', '3'], .inr rfl, .inr ⟨by decide, by decide⟩, .inr ⟨['5'], by decide, rfl⟩,
      .inr ⟨'e', ['+'], ['3'], .inl rfl, .inr (.inl rfl), by decide, rfl⟩, rfl⟩
  have hkind : (Value.list [.number "-1.5e+3", .null, .text (some "\u0001")]).IsSpelled := by
    refine .list ?_
    simp only [List.forall_mem_cons]
    exact ⟨.number hnumber, .null, .text _, List.forall_mem_nil _⟩
  have hstatus := Value.IsSpelled.member "started" (.bool true) (.member "completionTime" .null
    (.member "startTime" (.text "2016-12-31T23:59:60.500Z") (.member "state" (.text "pending") Value.isSpelled_empty)))
  have hspec := Value.IsSpelled.member "agent" Value.isSpelled_empty (.member "cluster" (.text "build02")
    (.member "job" (.text "") Value.isSpelled_empty))
  have hlabels := Value.IsSpelled.member "release" (.text "4.11")
    (.member "payload" (.text "\u00e9\\") Value.isSpelled_empty)
  have hmetadata := Value.IsSpelled.member "Name" .null
    (.member "creationTimestamp" (.text "0000-01-01T00:00:00.123456789Z")
      (.member "labels" hlabels (.member "name" (.text "run \"4.11\"\n") Value.isSpelled_empty)))
  exact .member "kind" hkind (.member "status" hstatus (.member "spec" hspec
    (.member "metadata" hmetadata Value.isSpelled_empty)))

/-- `leapRun` is read from `leapRunForm`, as it was: its leap second is the last one of a minute. -/
theorem readsBack_of_datable_leapRun : (∀ t ∈ leapRun.times, t.Datable) ∧ leapRun.Written leapRunForm
    ∧ ofBytes (String.ofList (Json.render leapRunForm)).toUTF8.toList = .ok leapRun := by
  have hd : ∀ t ∈ leapRun.times, t.Datable := by
    intro t ht
    have htime : t = ⟨-62167219200, 123456789⟩ ∨ t = ⟨1483228799, 1500000000⟩ := by simpa [times, leapRun] using ht
    rcases htime with rfl | rfl <;> exact ⟨by decide, by decide⟩
  have hsame : ∀ t ∈ leapRun.times, ¬ t.leapsWithinMinute := by decide
  have hreads := readsBack_of_datable hd
  refine ⟨hd, written_leapRunForm, ?_⟩
  rw [hreads.spelled leapRunForm written_leapRunForm isSpelled_leapRunForm, hreads.same hsame]

/-- A run that was created half a second into a leap second behind the fourth second of a minute. -/
def strayRun : Descriptor :=
  { name := "run", labels := .ofList [("release.openshift.io/analysis", "4.11")],
    created := ⟨1651141804, 1500000000⟩, job := "job", cluster := "build01", state := "pending",
    started := some ⟨1651141805, 500000000⟩, completed := none }

/-- **With a leap second within a minute, another descriptor is read**: the one that was created in the middle of the
fifth second. A window that ends in between holds the descriptor that was written, and not the one that is read. -/
theorem exists_datable_not_readBack :
    ∃ (d : Descriptor) (windowEnd : Instant), (∀ t ∈ d.times, t.Datable)
      ∧ ofBytes (String.ofList (Json.render d.toJson)).toUTF8.toList ≠ .ok d
      ∧ ofBytes (String.ofList (Json.render d.toJson)).toUTF8.toList
          = .ok { d with created := ⟨1651141805, 500000000⟩ }
      ∧ d.created < windowEnd ∧ windowEnd < ⟨1651141805, 500000000⟩ := by
  have hd : ∀ t ∈ strayRun.times, t.Datable := by
    intro t ht
    have htime : t = ⟨1651141804, 1500000000⟩ ∨ t = ⟨1651141805, 500000000⟩ := by simpa [times, strayRun] using ht
    rcases htime with rfl | rfl <;> exact ⟨by decide, by decide⟩
  have hsettled : strayRun.settled = { strayRun with created := ⟨1651141805, 500000000⟩ } := by decide
  have hread := ofBytes_render_toJson hd
  rw [hsettled] at hread
  refine ⟨strayRun, ⟨1651141805, 200000000⟩, hd, ?_, hread, by decide, by decide⟩
  rw [hread]
  exact fun heq => absurd (congrArg Descriptor.created (Except.ok.inj heq)) (by decide)

end Descriptor

end PayloadGate
