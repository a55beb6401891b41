/-
  Slideshow.Proofs.Topic.Saving

  Saving and loading again. What is written of a well-formed topic passes the check and is
  read as the same topic, whatever spellings the first document used. The main statement is
  `Topic.load_saved`.
-/
import Slideshow.Proofs.Json.Canonical
import Slideshow.Proofs.Topic.Numbers
import Slideshow.Topic.Writer

namespace Slideshow

open Json

/-! ## Values that are read back -/

/-- A field that is written where it is there is read back when its values are. -/
theorem Json.read_optional {α : Type} (encode : α → Json) {decode : Json → Option α}
    {o : Option α}
    (h : ∀ x ∈ o, (encode x).canonical ≠ .null ∧ decode (encode x).canonical = some x) :
    Json.optional decode ((o.map encode).map canonical) = some o := by
  rw [Option.map_map]
  exact optional_map h

theorem Json.float?_ofFloat {x : Float} (h : x.isFinite = true) : float? (ofFloat x) = some x :=
  if_pos h

theorem Json.read_times {t : Option Float} (h : ∀ x ∈ t, x.isFinite = true) :
    Json.optional float? ((t.map ofFloat).map canonical) = some t :=
  read_optional ofFloat fun x hx => ⟨nofun, float?_ofFloat (h x hx)⟩

theorem Json.read_texts (o : Option String) :
    Json.optional str? ((o.map str).map canonical) = some o :=
  read_optional str fun _ _ => ⟨nofun, rfl⟩

theorem Json.count?_ofNat {n : Nat} (h : n < Nat.pow 2 32) : count? (ofNat n) = some n := by
  have hnat : (Number.int n).toNat? = some n := by
    rw [Number.toNat?, if_pos (Int.natCast_nonneg n), Int.toNat_natCast]
  rw [ofNat, count?, hnat, Option.filter_some, if_pos (decide_eq_true h)]

theorem Json.read_count {o : Option Nat} (h : ∀ n ∈ o, n < Nat.pow 2 32) :
    Json.optional count? ((o.map ofNat).map canonical) = some o :=
  read_optional ofNat fun n hn => ⟨nofun, count?_ofNat (h n hn)⟩

theorem Ease.ofJson?_toJson (e : Ease) : Ease.ofJson? e.toJson = some e := by
  show ofName? e.name = some e
  cases e with
  | linear => decide +kernel
  | power degree direction => cases degree <;> cases direction <;> decide +kernel
  | sine direction => cases direction <;> decide +kernel

theorem Ease.read_curves (o : Option Ease) :
    Json.optional Ease.ofJson? ((o.map Ease.toJson).map canonical) = some o :=
  read_optional Ease.toJson fun e _ => ⟨nofun, Ease.ofJson?_toJson e⟩

theorem Frame.ofJson?_toJson {f : Frame} (h : f.Finite) :
    Frame.ofJson? f.toJson.canonical = some f := by
  obtain ⟨hx, hy, hwidth, hheight⟩ := h
  have hread : listOf? float? f.toJson.canonical = some [f.x, f.y, f.width, f.height] := by
    rw [Frame.toJson, canonical_arr, listOf?]
    simp [float?_ofFloat, hx, hy, hwidth, hheight]
  rw [Frame.ofJson?, hread]

theorem Point.ofJson?_toJson {p : Point} (h : p.Finite) :
    Point.ofJson? p.toJson.canonical = some p := by
  obtain ⟨hx, hy⟩ := h
  have hread : listOf? float? p.toJson.canonical = some [p.x, p.y] := by
    rw [Point.toJson, canonical_arr, listOf?]
    simp [float?_ofFloat, hx, hy]
  rw [Point.ofJson?, hread]

theorem Point.read_points {o : Option Point} (h : ∀ p ∈ o, p.Finite) :
    Json.optional Point.ofJson? ((o.map Point.toJson).map canonical) = some o :=
  read_optional Point.toJson fun p hp => ⟨nofun, Point.ofJson?_toJson (h p hp)⟩

/-! ## Paths -/

/-- What is written of a path is read as that path. -/
theorem PathSpec.ofJson?_toJson {p : PathSpec Float} (h : p.WellFormed) :
    ofJson? p.toJson.canonical = some p := by
  -- the ends are finite because they lie between zero and one
  have hzero : (0 : Float).isFinite = true := by decide +kernel
  have hone : (1 : Float).isFinite = true := by decide +kernel
  have hstart := Decimal.isFinite_of_between hzero hone h.start.1 h.start.2
  have hstop := Decimal.isFinite_of_between hzero hone h.stop.1 h.stop.2
  obtain ⟨es, hes, hsorted, hlookup⟩ := exists_canonical_record (j := p.toJson) rfl (by simp)
  rw [hes]
  refine ofJson?_obj_eq_some_iff.2 ⟨unambiguous_of_singles hsorted (by simp), ?_,
    ⟨some p.start, ?_, rfl⟩, ⟨some p.stop, ?_, rfl⟩, ?_, ?_⟩
  · rw [hlookup]
    rfl
  · rw [hlookup]
    exact read_times (t := some p.start) fun x hx => Option.some.inj hx ▸ hstart
  · rw [hlookup]
    exact read_times (t := some p.stop) fun x hx => Option.some.inj hx ▸ hstop
  · rw [hlookup]
    exact read_times fun x hx => (h.duration x hx).1
  · rw [hlookup]
    exact Ease.read_curves p.ease

/-! ## Directives -/

namespace Directive

/-- What is written of a directive passes the check and is read as that directive. -/
def Saved (d : Directive Float) : Prop :=
  Passes d.toJson.canonical ∧ ∀ nested, read? nested d.toJson.canonical = some d

theorem saved_of_fields {d : Directive Float} {es : Topic.Members} (hkind : d.kind ≠ .parallel)
    (hes : d.toJson.canonical = .obj es) (htype : lookupIn? "type" es = some (.str d.kind.name))
    (hfields : Topic.fieldProblems es d.kind = [])
    (hread : simple? d.kind (.obj es) = some d) : d.Saved := by
  rw [Saved, hes]
  refine ⟨.simple hkind htype hfields, fun nested => ?_⟩
  rw [read?_obj htype, if_neg hkind, hread]

theorem saved_camera {frame : Frame} {duration : Option Float} {ease : Option Ease}
    (hduration : ∀ x ∈ duration, IsTime x) (hframe : frame.Finite) :
    (camera frame duration ease).Saved := by
  obtain ⟨es, hes, hsorted, hlookup⟩ :=
    exists_canonical_record (j := (camera frame duration ease).toJson) rfl (by simp)
  have hto : required Frame.ofJson? (lookupIn? "to" es) = some frame := by
    rw [hlookup]
    exact Frame.ofJson?_toJson hframe
  have htime : Json.optional float? (lookupIn? "duration" es) = some duration := by
    rw [hlookup]
    exact read_times fun x hx => (hduration x hx).1
  have hcurve : Json.optional Ease.ofJson? (lookupIn? "ease" es) = some ease := by
    rw [hlookup]
    exact Ease.read_curves ease
  refine saved_of_fields nofun hes (hlookup "type") ?_ (simple?_camera_eq_some_iff.2
    ⟨unambiguous_of_singles hsorted (by simp), _, _, _, hto, htime, hcurve, rfl⟩)
  -- the check counts the numbers of a frame, whatever they are
  have hnumbers : Topic.isNumbers 4 (lookupIn? "to" es) = true := by
    rw [hlookup]
    rfl
  simp only [kind, Topic.fieldProblems, List.append_eq_nil_iff, if_pos hnumbers, true_and]
  exact ⟨Topic.optionalTime_eq_nil_iff.2 ⟨_, htime, hduration⟩,
    Topic.optionalEase_eq_nil_iff.2 ⟨_, hcurve⟩⟩

theorem saved_packet {label : Option String} {start : Option Point}
    {paths : List (PathSpec Float)} (hsome : paths ≠ []) (hpaths : ∀ p ∈ paths, p.WellFormed)
    (hstart : ∀ p ∈ start, p.Finite) : (packet label start paths).Saved := by
  obtain ⟨es, hes, hsorted, hlookup⟩ :=
    exists_canonical_record (j := (packet label start paths).toJson) rfl (by simp)
  have htext : Json.optional spelling? (lookupIn? "text" es) = some label := by
    rw [hlookup]
    exact read_optional str fun _ _ => ⟨nofun, rfl⟩
  -- a label is written as a text, so it is no truth value
  have hlabel : ∀ b, lookupIn? "text" es ≠ some (.bool b) := by
    intro b
    rw [hlookup]
    cases label <;> nofun
  have hfrom : Json.optional Point.ofJson? (lookupIn? "from" es) = some start := by
    rw [hlookup]
    exact Point.read_points hstart
  have harray : lookupIn? "paths" es =
      some (.arr (paths.map fun p => p.toJson.canonical)) :=
    (hlookup "paths").trans (congrArg some (canonical_arr_map PathSpec.toJson paths))
  have hways : required (listOf? PathSpec.ofJson?) (lookupIn? "paths" es) = some paths := by
    rw [harray]
    exact mapM_map_eq_some fun p hp => PathSpec.ofJson?_toJson (hpaths p hp)
  refine saved_of_fields nofun hes (hlookup "type") ?_ (simple?_packet_eq_some_iff.2
    ⟨unambiguous_of_singles hsorted (by simp), _, _, _, htext, hfrom, hways, rfl⟩)
  simp only [kind, Topic.fieldProblems, List.append_eq_nil_iff]
  refine ⟨⟨Topic.optionalLabel_eq_nil_iff.2 ⟨⟨_, htext⟩, hlabel⟩, ?_⟩,
    Topic.packetPaths_eq_nil_iff.2 ⟨_, harray, ?_, ?_⟩⟩
  · rw [Topic.given?, hlookup]
    cases start <;> rfl
  · simpa using hsome
  · intro j hj
    obtain ⟨p, hp, rfl⟩ := List.mem_map.1 hj
    exact (Topic.pathProblems_eq_nil_iff (PathSpec.ofJson?_toJson (hpaths p hp))).2
      (hpaths p hp)

theorem saved_setValue {target value : String} (htarget : Text.Nonblank target) :
    (setValue target value).Saved := by
  obtain ⟨es, hes, hsorted, hlookup⟩ :=
    exists_canonical_obj (j := (setValue target value).toJson) rfl (by simp)
  have htext : required str? (lookupIn? "target" es) = some target := by
    rw [hlookup]
    rfl
  have hfield : lookupIn? "value" es = some (.str value) := by
    rw [hlookup]
    rfl
  have hvalue : required spelling? (lookupIn? "value" es) = some value := by
    rw [hfield]
    rfl
  refine saved_of_fields nofun hes (hlookup "type") ?_ (simple?_setValue_eq_some_iff.2
    ⟨unambiguous_of_singles hsorted (by simp), _, _, htext, hvalue, rfl⟩)
  simp only [kind, Topic.fieldProblems, List.append_eq_nil_iff]
  refine ⟨Topic.requiredText_eq_nil_iff.2 ⟨_, htext, htarget⟩, ?_⟩
  rw [hfield]
  rfl

theorem saved_pulse {target : String} {duration : Option Float} {repetitions : Option Nat}
    (htarget : Text.Nonblank target) (hduration : ∀ x ∈ duration, IsTime x)
    (hrepetitions : ∀ n ∈ repetitions, n ≤ maxRepetitions) :
    (pulse target duration repetitions).Saved := by
  obtain ⟨es, hes, hsorted, hlookup⟩ :=
    exists_canonical_record (j := (pulse target duration repetitions).toJson) rfl (by simp)
  have htext : required str? (lookupIn? "target" es) = some target := by
    rw [hlookup]
    rfl
  have htime : Json.optional float? (lookupIn? "duration" es) = some duration := by
    rw [hlookup]
    exact read_times fun x hx => (hduration x hx).1
  have hcount : Json.optional count? (lookupIn? "repeat" es) = some repetitions := by
    rw [hlookup]
    exact read_count fun n hn => Nat.lt_of_le_of_lt (hrepetitions n hn) (by decide)
  refine saved_of_fields nofun hes (hlookup "type") ?_ (simple?_pulse_eq_some_iff.2
    ⟨unambiguous_of_singles hsorted (by simp), _, _, _, htext, htime, hcount, rfl⟩)
  simp only [kind, Topic.fieldProblems, List.append_eq_nil_iff]
  exact ⟨⟨Topic.requiredText_eq_nil_iff.2 ⟨_, htext, htarget⟩,
    Topic.optionalTime_eq_nil_iff.2 ⟨_, htime, hduration⟩⟩,
    Topic.repetitionProblems_eq_nil_iff.2 ⟨_, hcount, hrepetitions⟩⟩

theorem saved_wait {duration : Option Float} (hduration : ∀ x ∈ duration, IsTime x) :
    (wait duration).Saved := by
  obtain ⟨es, hes, hsorted, hlookup⟩ :=
    exists_canonical_record (j := (wait duration).toJson) rfl (by simp)
  have htime : Json.optional float? (lookupIn? "duration" es) = some duration := by
    rw [hlookup]
    exact read_times fun x hx => (hduration x hx).1
  exact saved_of_fields nofun hes (hlookup "type")
    (Topic.optionalTime_eq_nil_iff.2 ⟨_, htime, hduration⟩) (simple?_wait_eq_some_iff.2
    ⟨unambiguous_of_singles hsorted (by simp), _, htime, rfl⟩)

theorem saved_attributes {target : String} {values : Dict String} {duration : Option Float}
    {ease : Option Ease} (htarget : Text.Nonblank target) (hsome : values.isEmpty = false)
    (hduration : ∀ x ∈ duration, IsTime x) : (attributes target values duration ease).Saved := by
  obtain ⟨es, hes, hsorted, hlookup⟩ :=
    exists_canonical_record (j := (attributes target values duration ease).toJson) rfl (by simp)
  have htext : required str? (lookupIn? "target" es) = some target := by
    rw [hlookup]
    rfl
  -- only the long name is written
  have hother : lookupIn? "attrs" es = none := hlookup "attrs"
  have hfield : lookupIn? "attributes" es =
      some (.obj (values.entries.map fun e => (e.1, .str e.2))) := by
    rw [hlookup]
    exact congrArg some (canonical_ofDict str values)
  have hvalues : required (dictOf? spelling?) (lookupAny? ["attributes", "attrs"] es) =
      some values := by
    rw [lookupAny?_two, hfield, hother]
    exact dictOf?_entries str fun e _ => rfl
  have htime : Json.optional float? (lookupIn? "duration" es) = some duration := by
    rw [hlookup]
    exact read_times fun x hx => (hduration x hx).1
  have hcurve : Json.optional Ease.ofJson? (lookupIn? "ease" es) = some ease := by
    rw [hlookup]
    exact Ease.read_curves ease
  have hone : Unambiguous [["target"], ["attributes", "attrs"], ["duration"], ["ease"]] es := by
    refine (unambiguous_attributes_iff hsorted).2 fun h => ?_
    rw [hother] at h
    cases h.2
  refine saved_of_fields nofun hes (hlookup "type") ?_ (simple?_attributes_eq_some_iff.2
    ⟨hone, _, _, _, _, htext, hvalues, htime, hcurve, rfl⟩)
  simp only [kind, Topic.fieldProblems, List.append_eq_nil_iff]
  exact ⟨⟨⟨Topic.requiredText_eq_nil_iff.2 ⟨_, htext, htarget⟩,
    Topic.attributeProblems_eq_nil_iff.2 ⟨_, hvalues, hsome⟩⟩,
    Topic.optionalTime_eq_nil_iff.2 ⟨_, htime, hduration⟩⟩,
    Topic.optionalEase_eq_nil_iff.2 ⟨_, hcurve⟩⟩

theorem listToJson_eq (ds : List (Directive Float)) : listToJson ds = ds.map toJson := by
  induction ds with
  | nil => rfl
  | cons d ds ih => rw [listToJson, ih, List.map_cons]

theorem saved_parallel {ds : List (Directive Float)} (hds : ∀ d ∈ ds, d.Saved) :
    (parallel ds).Saved := by
  obtain ⟨es, hes, -, hlookup⟩ :=
    exists_canonical_obj (j := (parallel ds).toJson) rfl (by simp)
  have htype : lookupIn? "type" es = some (.str Kind.parallel.name) := hlookup "type"
  have hblock : lookupIn? "animations" es = some (.arr (ds.map fun d => d.toJson.canonical)) := by
    rw [hlookup, ← canonical_arr_map, ← listToJson_eq]
    rfl
  rw [Saved, hes]
  refine ⟨.parallel htype hblock fun j hj => ?_, fun nested => ?_⟩
  · obtain ⟨d, hd, rfl⟩ := List.mem_map.1 hj
    exact (hds d hd).1
  · have hitems : required (listOf? (read? true)) (lookupIn? "animations" es) = some ds := by
      rw [hblock]
      exact mapM_map_eq_some fun d hd => (hds d hd).2 true
    rw [read?_obj htype, if_pos rfl, hitems, Option.map_some]

/-- Well-formed directives survive being written, at every depth. -/
theorem saved {d : Directive Float} (hwell : d.WellFormed) (hfinite : d.Finite) : d.Saved := by
  -- induction over the nesting of the directive; only frames and points need finiteness
  induction hwell with
  | camera hduration =>
    cases hfinite with
    | camera hframe => exact saved_camera hduration hframe
  | packet hsome hpaths =>
    cases hfinite with
    | packet hstart => exact saved_packet hsome hpaths hstart
  | setValue htarget => exact saved_setValue htarget
  | pulse htarget hduration hrepetitions => exact saved_pulse htarget hduration hrepetitions
  | wait hduration => exact saved_wait hduration
  | attributes htarget hsome hduration => exact saved_attributes htarget hsome hduration
  | parallel _ ih =>
    cases hfinite with
    | parallel hds => exact saved_parallel fun d hd => ih d hd (hds d hd)

end Directive

/-! ## Components -/

theorem ComponentValue.mapM_entry (es : List (String × String)) :
    (es.map fun e => (e.1, Json.str e.2)).mapM entry = .ok es := by
  induction es with
  | nil => rfl
  | cons e es ih =>
    rw [List.map_cons, List.mapM_cons, ih]
    rfl

theorem ComponentValue.ofJson?_toJson (v : ComponentValue) :
    ofJson? v.toJson.canonical = some v := by
  cases v with
  | text s => rfl
  | attributes values =>
    have hvalues : ofJson (.obj (values.entries.map fun e => (e.1, .str e.2))) =
        .ok (attributes values) := by
      show ((values.entries.map fun e => (e.1, Json.str e.2)).mapM entry).map _ = _
      rw [mapM_entry, Except.map, Dict.ofList_entries]
    have hcanonical : (toJson (attributes values)).canonical =
        .obj (values.entries.map fun e => (e.1, .str e.2)) := canonical_ofDict str values
    rw [hcanonical, ofJson?, hvalues]
    rfl

theorem ComponentValue.read_components (d : Dict ComponentValue) :
    withDefault .empty (dictOf? ComponentValue.ofJson?)
      ((componentsToJson? d).map canonical) = some d := by
  rw [componentsToJson?]
  split
  · rename_i hempty
    rw [Dict.eq_empty_of_isEmpty hempty]
    rfl
  · rw [Option.map_some, canonical_ofDict]
    exact dictOf?_entries (fun v => v.toJson.canonical) fun e _ =>
      ComponentValue.ofJson?_toJson e.2

/-! ## Captions and steps -/

theorem Caption.saved {c : Caption} (h : c.WellFormed) {ms : Topic.Members}
    (hms : lookupIn? "ui" ms = some c.toJson.canonical) :
    Topic.captionProblems ms = [] ∧
      required Caption.ofJson? (lookupIn? "ui" ms) = some c := by
  obtain ⟨ui, hui, hsorted, hlookup⟩ := exists_canonical_record (j := c.toJson) rfl (by simp)
  have htitle : required str? (lookupIn? "title" ui) = some c.title := by
    rw [hlookup]
    rfl
  have hphase : required str? (lookupIn? "phase" ui) = some c.phase := by
    rw [hlookup]
    rfl
  have hexplanation : Json.optional str? (lookupIn? "phaseExplanation" ui) =
      some c.phaseExplanation := by
    rw [hlookup]
    exact read_texts _
  have hdescription : Json.optional str? (lookupIn? "description" ui) = some c.description := by
    rw [hlookup]
    exact read_texts _
  have hheading : Json.optional str? (lookupIn? "noteTitle" ui) = some c.noteTitle := by
    rw [hlookup]
    exact read_texts _
  have hnote : Json.optional str? (lookupIn? "note" ui) = some c.note := by
    rw [hlookup]
    exact read_texts _
  rw [hui] at hms
  rw [Topic.captionProblems_eq_nil_iff, hms]
  refine ⟨⟨ui, rfl, Topic.requiredText_eq_nil_iff.2 ⟨_, htitle, h.title⟩,
    Topic.requiredText_eq_nil_iff.2 ⟨_, hphase, h.phase⟩,
    Topic.optionalText_eq_nil_iff.2 ⟨_, hexplanation⟩,
    Topic.optionalText_eq_nil_iff.2 ⟨_, hdescription⟩,
    Topic.optionalText_eq_nil_iff.2 ⟨_, hheading⟩,
    Topic.optionalText_eq_nil_iff.2 ⟨_, hnote⟩⟩, ?_⟩
  exact Caption.ofJson?_obj_eq_some_iff.2 ⟨unambiguous_of_singles hsorted (by simp), hphase,
    hexplanation, htitle, hdescription, hheading, hnote⟩

/-- The list of a step's directives is written unless it is empty. -/
theorem Step.saved_animations {ds : List (Directive Float)} (hds : ∀ d ∈ ds, d.Saved)
    {ms : Topic.Members} (hms : lookupIn? "animations" ms =
      (if ds.isEmpty then none else some (.arr (ds.map Directive.toJson))).map canonical) :
    Topic.animationProblems ms = [] ∧
      withDefault [] (listOf? Directive.ofJson?) (lookupIn? "animations" ms) = some ds := by
  -- an empty list is not written, and an absent one is read as empty
  split at hms
  · rename_i hempty
    have hnone : lookupIn? "animations" ms = none := hms
    rw [Topic.animationProblems, hnone, List.isEmpty_iff.1 hempty]
    exact ⟨rfl, rfl⟩
  · rw [Option.map_some, canonical_arr_map] at hms
    rw [Topic.animationProblems, hms]
    refine ⟨Topic.directivesProblems_eq_nil_iff.2 fun j hj => ?_, ?_⟩
    · obtain ⟨d, hd, rfl⟩ := List.mem_map.1 hj
      exact Topic.directiveProblems_eq_nil_iff.2 (hds d hd).1
    · exact mapM_map_eq_some fun d hd => (hds d hd).2 false

/-- What is written of a step passes the check and is read as that step. -/
def Step.Saved (s : Step) : Prop :=
  Topic.stepProblems [] s.toJson.canonical = [] ∧ Step.ofJson? s.toJson.canonical = some s ∧
    Topic.id? s.toJson.canonical = some s.id

theorem Step.saved {s : Step} (h : s.WellFormed) (hfinite : ∀ d ∈ s.animations, d.Finite) :
    s.Saved := by
  obtain ⟨es, hes, hsorted, hlookup⟩ := exists_canonical_record (j := s.toJson) rfl (by simp)
  have hid : required str? (lookupIn? "id" es) = some s.id := by
    rw [hlookup]
    rfl
  obtain ⟨hcaption, hreadCaption⟩ := Caption.saved h.caption (hlookup "ui")
  obtain ⟨hanimations, hreadAnimations⟩ :=
    Step.saved_animations (fun d hd => Directive.saved (h.animations d hd) (hfinite d hd))
      (hlookup "animations")
  have hstate : withDefault .empty (dictOf? ComponentValue.ofJson?)
      (lookupIn? "finalState" es) = some s.finalState := by
    rw [hlookup]
    exact ComponentValue.read_components s.finalState
  rw [Step.Saved, hes]
  refine ⟨?_, ?_, ?_⟩
  · -- by itself a step has no steps before it whose id it could repeat
    exact Topic.stepProblems_obj_eq_nil_iff.2 ⟨Topic.requiredText_eq_nil_iff.2 ⟨_, hid, h.id⟩,
      nofun, hcaption, hanimations, Topic.optionalComponents_eq_nil_iff.2 (.inr ⟨_, hstate⟩)⟩
  · exact Step.ofJson?_obj_eq_some_iff.2 ⟨unambiguous_of_singles hsorted (by simp), hid,
      hreadCaption, hreadAnimations, hstate⟩
  · rw [Topic.id?_obj, hid]

/-! ## Slides and topics -/

/-- The ids of what is written are the ids it had. -/
theorem Topic.filterMap_id?_map {α : Type} {write : α → Json} {id : α → String} {xs : List α}
    (h : ∀ x ∈ xs, Topic.id? (write x) = some (id x)) :
    (xs.map write).filterMap Topic.id? = xs.map id := by
  induction xs with
  | nil => rfl
  | cons x xs ih =>
    rw [List.map_cons, List.filterMap_cons_some (h x List.mem_cons_self), List.map_cons,
      ih fun y hy => h y (List.mem_cons_of_mem _ hy)]

/-- What is written of a slide passes the check and is read as that slide. -/
def Slide.Saved (s : Slide) : Prop :=
  Topic.slideProblems [] s.toJson.canonical = [] ∧ Slide.ofJson? s.toJson.canonical = some s ∧
    Topic.id? s.toJson.canonical = some s.id

theorem Slide.saved {s : Slide} (h : s.WellFormed) (hsteps : ∀ step ∈ s.steps, step.Saved) :
    s.Saved := by
  obtain ⟨es, hes, hsorted, hlookup⟩ := exists_canonical_record (j := s.toJson) rfl (by simp)
  have hid : required str? (lookupIn? "id" es) = some s.id := by
    rw [hlookup]
    rfl
  have htitle : required str? (lookupIn? "title" es) = some s.title := by
    rw [hlookup]
    rfl
  have hdiagram : required str? (lookupIn? "diagram" es) = some s.diagram := by
    rw [hlookup]
    rfl
  have hcomponents : withDefault .empty (dictOf? ComponentValue.ofJson?)
      (lookupIn? "components" es) = some s.components := by
    rw [hlookup]
    exact ComponentValue.read_components s.components
  have harray : lookupIn? "steps" es =
      some (.arr (s.steps.map fun step => step.toJson.canonical)) :=
    (hlookup "steps").trans (congrArg some (canonical_arr_map Step.toJson s.steps))
  have hread : required (listOf? Step.ofJson?) (lookupIn? "steps" es) = some s.steps := by
    rw [harray]
    exact mapM_map_eq_some fun step hstep => (hsteps step hstep).2.1
  have hcheck : Topic.stepsProblems es = [] := by
    refine Topic.stepsProblems_eq_nil_iff.2 ⟨_, harray, ?_, fun j hj => ?_, ?_⟩
    · rw [ne_eq, List.map_eq_nil_iff]
      exact h.stepsSome
    · obtain ⟨step, hstep, rfl⟩ := List.mem_map.1 hj
      exact (hsteps step hstep).1
    · -- ids are written as they are, so they stay distinct
      rw [Topic.filterMap_id?_map fun step hstep => (hsteps step hstep).2.2]
      exact h.stepsDistinct
  rw [Slide.Saved, hes]
  refine ⟨?_, ?_, ?_⟩
  · exact Topic.slideProblems_obj_eq_nil_iff.2 ⟨Topic.requiredText_eq_nil_iff.2 ⟨_, hid, h.id⟩,
      nofun, Topic.requiredText_eq_nil_iff.2 ⟨_, htitle, h.title⟩,
      Topic.requiredText_eq_nil_iff.2 ⟨_, hdiagram, h.diagram⟩,
      Topic.optionalComponents_eq_nil_iff.2 (.inr ⟨_, hcomponents⟩), hcheck⟩
  · exact Slide.ofJson?_obj_eq_some_iff.2 ⟨unambiguous_of_singles hsorted (by simp), hid, htitle,
      hdiagram, hcomponents, hread⟩
  · rw [Topic.id?_obj, hid]

/-- A well-formed topic is loaded from what is written of it. -/
theorem Topic.load_of_wellFormed {t : Topic} (h : t.WellFormed)
    (hslides : ∀ slide ∈ t.slides, slide.Saved) :
    Topic.load t.toJson.canonical = .ok t := by
  obtain ⟨es, hes, hsorted, hlookup⟩ := exists_canonical_obj (j := t.toJson) rfl (by simp)
  have hid : required str? (lookupIn? "id" es) = some t.id := by
    rw [hlookup]
    rfl
  have htitle : required str? (lookupIn? "title" es) = some t.title := by
    rw [hlookup]
    rfl
  have harray : lookupIn? "slides" es =
      some (.arr (t.slides.map fun slide => slide.toJson.canonical)) :=
    (hlookup "slides").trans (congrArg some (canonical_arr_map Slide.toJson t.slides))
  have hread : required (listOf? Slide.ofJson?) (lookupIn? "slides" es) = some t.slides := by
    rw [harray]
    exact mapM_map_eq_some fun slide hslide => (hslides slide hslide).2.1
  have hcheck : Topic.slidesProblems es = [] := by
    refine Topic.slidesProblems_eq_nil_iff.2 ⟨_, harray, ?_, fun j hj => ?_, ?_⟩
    · rw [ne_eq, List.map_eq_nil_iff]
      exact h.slidesSome
    · obtain ⟨slide, hslide, rfl⟩ := List.mem_map.1 hj
      exact (hslides slide hslide).1
    · rw [Topic.filterMap_id?_map fun slide hslide => (hslides slide hslide).2.2]
      exact h.slidesDistinct
  have hproblems : Topic.problems t.toJson.canonical = [] :=
    Topic.problems_eq_nil_iff.2 ⟨es, hes, Topic.requiredText_eq_nil_iff.2 ⟨_, hid, h.id⟩,
      Topic.requiredText_eq_nil_iff.2 ⟨_, htitle, h.title⟩, hcheck⟩
  have htopic : Topic.ofJson? t.toJson.canonical = some t := by
    rw [hes]
    exact Topic.ofJson?_obj_eq_some_iff.2
      ⟨unambiguous_of_singles hsorted (by simp), hid, htitle, hread⟩
  rw [Topic.load, hproblems, htopic]

/-- A topic that was loaded from any document is loaded again, and unchanged, from what is
    written of it. -/
theorem Topic.load_saved {j : Json} (hj : j.WellFormed) {t : Topic}
    (h : Topic.load j = .ok t) : Topic.load t.toJson.canonical = .ok t := by
  obtain ⟨hcheck, hread⟩ := Topic.problems_of_load h
  have hwell := Topic.wellFormed_of_read hcheck hread
  have hfinite := Topic.finite_of_read hj hcheck hread
  refine Topic.load_of_wellFormed hwell fun slide hslide => ?_
  have hslideWell := hwell.slides slide hslide
  refine Slide.saved hslideWell fun step hstep => ?_
  exact Step.saved (hslideWell.steps step hstep) (hfinite slide hslide step hstep)

theorem Topic.load_saved_demo :
    Topic.nestedBlocks.WellFormed ∧
      ∃ t, Topic.load Topic.nestedBlocks = .ok t ∧ Topic.load t.toJson.canonical = .ok t := by
  have hwell : Topic.nestedBlocks.WellFormed := by decide +kernel
  obtain ⟨t, ht⟩ := Topic.exists_load (j := Topic.nestedBlocks) (by decide +kernel)
  exact ⟨hwell, t, ht, Topic.load_saved hwell ht⟩

end Slideshow
