import SimpleZanzibar.Eval.LookupSubjectsCorrect
import SimpleZanzibar.Eval.Memo

/-!
# What a lookup of subjects reports

The collector reports a candidate at once where the walk knows that it holds the
permission, and after a check from the root otherwise.  Either way a candidate that was
seen is reported iff it holds the permission.

**Results.**
* `LookupSubjectCollector.Collected`: the invariant of the collector.
* `collected_collectUserCandidate`, `collected_collectUsersetCandidate`: what an offered
  candidate does to it.
-/

namespace SimpleZanzibar

open BoolSystem

/-- The subject is of the type: a plain user of type `user`, a userset of any other. -/
def User.OfType (subjectType : String) : User → Prop
  | .userId _ => subjectType = "user"
  | .userset object _ => subjectType ≠ "user" ∧ object.namespaceName = subjectType

/-- A lookup of subjects over a snapshot whose equations have the levels. -/
structure SubjectLookup where
  snapshot : PublishedSnapshot
  resource : Object
  permission : RelationName
  subjectType : SubjectType
  limits : EvaluationLimits
  level : User → RelKey → Nat

namespace SubjectLookup

variable [StoreHasher]

/-- The keys to which the user belongs. -/
def model (lookup : SubjectLookup) (user : User) : Set RelKey :=
  leastModel (lookup.snapshot.system user) (lookup.level user)

/-- The user holds the permission on the resource. -/
def Holds (lookup : SubjectLookup) (user : User) : Prop :=
  ⟨lookup.resource, lookup.permission⟩ ∈ lookup.model user

/-- The equations of every user are stratified by the levels. -/
def Stratified (lookup : SubjectLookup) : Prop :=
  ∀ user, IsStratification (lookup.snapshot.system user) (lookup.level user)

end SubjectLookup

namespace LookupSubjectCollector

/-- Where the userset is to be walked it was not seen before or is walked once more, and where
it is not it was seen before. -/
def Enters (collector collector' : LookupSubjectCollector) (object : Object)
    (relationName : RelationName) (walk : Bool) : Prop :=
  (walk = true ∧ (collector'.seenUsersets = collector.seenUsersets ∨
    collector'.seenUsersets = insert (object, relationName) collector.seenUsersets)) ∨
  (walk = false ∧ (object, relationName) ∈ collector.seenUsersets ∧
    collector'.seenUsersets = collector.seenUsersets)

/-- A userset is walked iff it is new. -/
theorem enters_insertUserset
    {collector collector' : LookupSubjectCollector} {object : Object}
    {relationName : RelationName} {walk : Bool}
    (h : insertUserset object relationName collector = (.ok walk, collector')) :
    collector' = { collector with
        seenUsersets := insert (object, relationName) collector.seenUsersets } ∧
      Enters collector collector' object relationName walk := by
  obtain ⟨hwalk, hcollector⟩ := Prod.mk.inj h
  cases hwalk
  subst hcollector
  refine ⟨rfl, ?_⟩
  by_cases hseen : (object, relationName) ∈ collector.seenUsersets
  · exact Or.inr ⟨decide_eq_false (not_not.mpr hseen), hseen, Finset.insert_eq_of_mem hseen⟩
  · exact Or.inl ⟨decide_eq_true hseen, Or.inr rfl⟩

section Collected

variable [StoreHasher] {lookup : SubjectLookup}

/-- The collector works for the lookup, on a context that is in order. -/
structure Asks (lookup : SubjectLookup) (collector : LookupSubjectCollector) : Prop where
  resource : collector.resource = lookup.resource
  permission : collector.permission.name = lookup.permission.value
  subjectType : collector.subjectType = lookup.subjectType
  limits : collector.limits = lookup.limits
  context : (Search.direct lookup.snapshot).Valid collector.checkContext

/-- The subjects that were seen are reported, once, iff they hold the permission. -/
structure Collected (lookup : SubjectLookup) (collector : LookupSubjectCollector) : Prop
    extends Asks lookup collector where
  nodup : collector.subjects.Nodup
  seen : ∀ subject ∈ collector.subjects, subject ∈ collector.seenSubjects
  typed : ∀ subject ∈ collector.subjects, subject.OfType lookup.subjectType.value
  sound : ∀ subject ∈ collector.subjects, lookup.Holds subject
  complete : ∀ subject ∈ collector.seenSubjects, lookup.Holds subject →
    subject ∈ collector.subjects
  bounded : collector.subjects.length ≤ lookup.limits.maxLookupResults.get

/-- A check of a candidate decides whether it holds the permission. -/
theorem verifySubject_eq_ok
    {collector collector' : LookupSubjectCollector} {subject : User} {allowed : Bool}
    (hview : lookup.snapshot.relationships.Inv)
    (hschema : lookup.snapshot.schema.Accepted)
    (hstratified : lookup.Stratified)
    (hasks : Asks lookup collector)
    (h : verifySubject subject collector = (.ok allowed, collector')) :
    ∃ context, (Search.direct lookup.snapshot).Valid context ∧
      collector' = { collector with checkContext := context } ∧
      (allowed = true ↔ lookup.Holds subject) := by
  unfold verifySubject at h
  rw [Action.get_bind_apply] at h
  obtain ⟨membership, checked, hzoom, hlast⟩ := Action.bind_eq_ok.mp h
  cases hlast
  obtain ⟨context, hcheck, rfl⟩ := Action.zoom_eq_ok.mp hzoom
  obtain ⟨_, reset, hreset, hcheck⟩ := Action.bind_eq_ok.mp hcheck
  cases hreset
  obtain ⟨hvalid, hempty⟩ := hasks.context.resetForReuse
  have hreturns : (Evaluation.check collector.resource collector.permission subject).Leaves
      collector.checkContext.resetForReuse
      ((Search.direct lookup.snapshot).Returns collector.checkContext.resetForReuse
        ((Search.direct lookup.snapshot).RootAnswer subject collector.resource
          collector.permission)) :=
    Search.check_answered hview hschema hvalid hempty (fun _ _ => trivial)
  unfold Action.Leaves at hreturns
  rw [hcheck] at hreturns
  refine ⟨context, hreturns.valid, rfl, ?_⟩
  obtain ⟨b, rfl, name, hname, heval⟩ := hreturns.answer _ rfl
  have hsame : name = lookup.permission := Identifier.ext (hname.trans hasks.permission)
  rw [hsame, hasks.resource] at heval
  rw [Membership.isAllowed_ofBool]
  exact rootEval_iff_leastModel (hstratified subject) heval

namespace Collected

variable {collector : LookupSubjectCollector} {subject : User} {context : EvaluationContext}

/-- Reporting a new candidate that holds the permission. -/
theorem report
    (h : Collected lookup collector)
    (hvalid : (Search.direct lookup.snapshot).Valid context)
    (hopen : collector.resultLimitReached = false)
    (hnew : subject ∉ collector.seenSubjects)
    (htype : subject.OfType lookup.subjectType.value)
    (hholds : lookup.Holds subject) :
    Collected lookup { collector with
      seenSubjects := insert subject collector.seenSubjects
      checkContext := context
      subjects := collector.subjects ++ [subject] } := by
  have hfresh : subject ∉ collector.subjects := fun hmem => hnew (h.seen subject hmem)
  refine ⟨⟨h.resource, h.permission, h.subjectType, h.limits, hvalid⟩, ?_, ?_, ?_, ?_, ?_, ?_⟩
  · exact List.nodup_append'.mpr ⟨h.nodup, List.nodup_singleton _,
      List.disjoint_singleton.mpr hfresh⟩
  · intro other hother
    rcases List.mem_append.mp hother with hother | hother
    · exact Finset.mem_insert_of_mem (h.seen other hother)
    · rw [List.mem_singleton.mp hother]
      exact Finset.mem_insert_self _ _
  · intro other hother
    rcases List.mem_append.mp hother with hother | hother
    · exact h.typed other hother
    · rwa [List.mem_singleton.mp hother]
  · intro other hother
    rcases List.mem_append.mp hother with hother | hother
    · exact h.sound other hother
    · rwa [List.mem_singleton.mp hother]
  · intro other hother hholds'
    rcases Finset.mem_insert.mp hother with rfl | hother
    · exact List.mem_append_right _ (List.mem_singleton_self _)
    · exact List.mem_append_left _ (h.complete other hother hholds')
  · unfold resultLimitReached lookupResultLimitReached at hopen
    rw [decide_eq_false_iff_not, h.limits] at hopen
    rw [List.length_append, List.length_singleton]
    omega

/-- Passing over a candidate that does not hold the permission. -/
theorem passOver
    (h : Collected lookup collector)
    (hvalid : (Search.direct lookup.snapshot).Valid context)
    (hdenied : ¬ lookup.Holds subject) :
    Collected lookup { collector with
      seenSubjects := insert subject collector.seenSubjects
      checkContext := context } := by
  refine ⟨⟨h.resource, h.permission, h.subjectType, h.limits, hvalid⟩, h.nodup, ?_, h.typed,
    h.sound, ?_, h.bounded⟩
  · exact fun other hother => Finset.mem_insert_of_mem (h.seen other hother)
  · intro other hother hholds
    rcases Finset.mem_insert.mp hother with rfl | hother
    · exact absurd hholds hdenied
    · exact h.complete other hother hholds

/-- Remembering a userset. -/
theorem withUsersets
    (h : Collected lookup collector)
    (usersets : Finset (Object × RelationName)) :
    Collected lookup { collector with seenUsersets := usersets } :=
  ⟨⟨h.resource, h.permission, h.subjectType, h.limits, h.context⟩, h.nodup, h.seen, h.typed,
    h.sound, h.complete, h.bounded⟩

theorem asks_insert
    (h : Collected lookup collector)
    (subject : User) :
    Asks lookup { collector with seenSubjects := insert subject collector.seenSubjects } :=
  ⟨h.resource, h.permission, h.subjectType, h.limits, h.context⟩

/-- Remembering a candidate that was seen. -/
theorem seenAgain
    (h : Collected lookup collector)
    (hseen : subject ∈ collector.seenSubjects) :
    Collected lookup { collector with seenSubjects := insert subject collector.seenSubjects } := by
  rwa [Finset.insert_eq_of_mem hseen]

end Collected

variable (hview : lookup.snapshot.relationships.Inv)
  (hschema : lookup.snapshot.schema.Accepted) (hstratified : lookup.Stratified)
include hview hschema hstratified

/-- A candidate that is new is reported iff it holds the permission. -/
theorem collected_reportUser
    {collector collector' : LookupSubjectCollector} {subject : User} {verifyCandidate : Bool}
    (hcollected : Collected lookup collector)
    (hopen : collector.resultLimitReached = false)
    (htype : subject.OfType lookup.subjectType.value)
    (hgranted : verifyCandidate = false → lookup.Holds subject)
    (h : reportUser subject verifyCandidate (decide (subject ∉ collector.seenSubjects))
      { collector with seenSubjects := insert subject collector.seenSubjects } =
        (.ok (), collector')) :
    Collected lookup collector' ∧ collector'.seenUsersets = collector.seenUsersets := by
  unfold reportUser at h
  split at h
  · next hnew =>
      have hnew := of_decide_eq_true hnew
      split at h
      · next hverify =>
          obtain ⟨more, pushed, hpush, hlast⟩ := Action.bind_eq_ok.mp h
          cases hlast
          cases hpush
          exact ⟨hcollected.report hcollected.context hopen hnew htype
            (hgranted (by simpa using hverify)), rfl⟩
      · obtain ⟨allowed, verified, hverified, h⟩ := Action.bind_eq_ok.mp h
        obtain ⟨context, hvalid, rfl, hiff⟩ := verifySubject_eq_ok hview hschema hstratified
          (hcollected.asks_insert subject) hverified
        split at h
        · next hallowed =>
            obtain ⟨more, pushed, hpush, hlast⟩ := Action.bind_eq_ok.mp h
            cases hlast
            cases hpush
            exact ⟨hcollected.report hvalid hopen hnew htype (hiff.mp hallowed), rfl⟩
        · next hdenied =>
            cases h
            exact ⟨hcollected.passOver hvalid (fun hholds => hdenied (hiff.mpr hholds)), rfl⟩
  · next hold =>
      cases h
      exact ⟨hcollected.seenAgain (not_not.mp (fun hnew => hold (decide_eq_true hnew))), rfl⟩

/-- A user that is offered is seen, and reported iff it holds the permission. -/
theorem collected_collectUserCandidate
    {collector collector' : LookupSubjectCollector} {id : String} {verifyCandidate : Bool}
    (hcollected : Collected lookup collector)
    (hopen : collector.resultLimitReached = false)
    (hgranted : verifyCandidate = false → lookup.Holds (.userId id))
    (h : collectUserCandidate id verifyCandidate collector = (.ok (), collector')) :
    Collected lookup collector' ∧ collector'.seenUsersets = collector.seenUsersets := by
  unfold collectUserCandidate at h
  rw [Action.get_bind_apply] at h
  split at h
  · cases h
    exact ⟨hcollected, rfl⟩
  · next huser =>
      have htype : (User.userId id).OfType lookup.subjectType.value := by
        rw [← hcollected.subjectType]
        exact not_not.mp huser
      exact collected_reportUser hview hschema hstratified hcollected hopen htype hgranted h

/-- A userset that is new is reported iff it holds the permission, and it is entered unless
enough subjects are reported. -/
theorem collected_reportUserset
    {collector collector' : LookupSubjectCollector} {object : Object}
    {relationName : RelationName} {verifyCandidate walk : Bool}
    (hcollected : Collected lookup collector)
    (hopen : collector.resultLimitReached = false)
    (htype : (User.userset object ⟨relationName.value⟩).OfType lookup.subjectType.value)
    (hgranted : verifyCandidate = false → lookup.Holds (.userset object ⟨relationName.value⟩))
    (h : reportUserset object relationName verifyCandidate
      (decide (User.userset object ⟨relationName.value⟩ ∉ collector.seenSubjects))
      { collector with
        seenSubjects := insert (.userset object ⟨relationName.value⟩) collector.seenSubjects } =
        (.ok walk, collector')) :
    Collected lookup collector' ∧
      (collector'.resultLimitReached = false →
        Enters collector collector' object relationName walk) := by
  unfold reportUserset at h
  split at h
  · next hnew =>
      have hnew := of_decide_eq_true hnew
      split at h
      · next hverify =>
          cases h
          refine ⟨hcollected.report hcollected.context hopen hnew htype
            (hgranted (by simpa using hverify)), fun hmore => Or.inl ⟨?_, Or.inl rfl⟩⟩
          simpa using hmore
      · obtain ⟨allowed, verified, hverified, h⟩ := Action.bind_eq_ok.mp h
        obtain ⟨context, hvalid, rfl, hiff⟩ := verifySubject_eq_ok hview hschema hstratified
          (hcollected.asks_insert _) hverified
        split at h
        · next hallowed =>
            obtain ⟨more, pushed, hpush, h⟩ := Action.bind_eq_ok.mp h
            obtain ⟨hmore, hpushed⟩ := Prod.mk.inj hpush
            cases hmore
            subst hpushed
            have hreported := hcollected.report hvalid hopen hnew htype (hiff.mp hallowed)
            split at h
            · next hreached =>
                cases h
                refine ⟨hreported, fun hmore => ?_⟩
                rw [hmore] at hreached
                cases hreached
            · obtain ⟨rfl, henters⟩ := enters_insertUserset h
              exact ⟨hreported.withUsersets _, fun _ => henters⟩
        · next hdenied =>
            obtain ⟨rfl, henters⟩ := enters_insertUserset h
            exact ⟨(hcollected.passOver hvalid
              (fun hholds => hdenied (hiff.mpr hholds))).withUsersets _, fun _ => henters⟩
  · next hold =>
      obtain ⟨rfl, henters⟩ := enters_insertUserset h
      have hseen := not_not.mp (fun hnew => hold (decide_eq_true hnew))
      exact ⟨(hcollected.seenAgain hseen).withUsersets _, fun _ => henters⟩

/-- A userset that is offered is entered, and where its type is the requested one it is seen
and reported iff it holds the permission. -/
theorem collected_collectUsersetCandidate
    {collector collector' : LookupSubjectCollector} {object : Object}
    {relationName : RelationName} {verifyCandidate walk : Bool}
    (hcollected : Collected lookup collector)
    (hopen : collector.resultLimitReached = false)
    (hobject : object.namespaceName ≠ "user")
    (hgranted : verifyCandidate = false → lookup.Holds (.userset object ⟨relationName.value⟩))
    (h : collectUsersetCandidate object relationName verifyCandidate collector =
      (.ok walk, collector')) :
    Collected lookup collector' ∧
      (object.namespaceName = lookup.subjectType.value →
        .userset object ⟨relationName.value⟩ ∈ collector'.seenSubjects) ∧
      (collector'.resultLimitReached = false →
        Enters collector collector' object relationName walk) := by
  unfold collectUsersetCandidate at h
  rw [Action.get_bind_apply] at h
  split at h
  · next hsame =>
      have htype : (User.userset object ⟨relationName.value⟩).OfType lookup.subjectType.value := by
        rw [← hcollected.subjectType]
        exact ⟨fun huser => hobject (hsame.trans huser), hsame⟩
      obtain ⟨hcollected', henters⟩ := collected_reportUserset hview hschema hstratified
        hcollected hopen htype hgranted h
      have hseen : ∀ inserted, reportUserset object relationName verifyCandidate
          (decide (User.userset object ⟨relationName.value⟩ ∉ collector.seenSubjects)) inserted =
            (.ok walk, collector') → inserted.seenSubjects ⊆ collector'.seenSubjects := by
        intro inserted hreport
        have hgrows := respects_reportUserset object relationName verifyCandidate
          (decide (User.userset object ⟨relationName.value⟩ ∉ collector.seenSubjects)) inserted
        rw [hreport] at hgrows
        exact hgrows.seenSubjects
      exact ⟨hcollected', fun _ => hseen _ h (Finset.mem_insert_self _ _), henters⟩
  · next hother =>
      obtain ⟨rfl, henters⟩ := enters_insertUserset h
      refine ⟨hcollected.withUsersets _, fun hsame => ?_, fun _ => henters⟩
      exact absurd (hcollected.subjectType ▸ hsame) hother

end Collected

end LookupSubjectCollector

end SimpleZanzibar
