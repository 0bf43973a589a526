import SimpleZanzibar.SchemaExport

/-!
# Exported policies

An engine exports its schema and its relationships as text: one file for each resource type, its
lines sorted.  Reading the files back gives the relationships in another order, unless the text
of one is longer than the parser accepts.

**Results.**
* `relationshipFiles_of_perm`: the files do not depend on the order of the relationships.
* `parseRelationships_relationshipFiles_iff`: when the files are read back, and as what.
* `EngineWriter.exportedPolicy_restores`: what an engine becomes that applies the policy which
  another engine has exported.
-/

namespace SimpleZanzibar

/-! ## The files -/

/-- Enters a line under a resource type; the types are sorted. -/
def pushLine (resourceType line : String) :
    List (String × List String) → List (String × List String)
  | [] => [(resourceType, [line])]
  | (key, lines) :: rest =>
      if resourceType < key then (resourceType, [line]) :: (key, lines) :: rest
      else if resourceType = key then (key, lines ++ [line]) :: rest
      else (key, lines) :: pushLine resourceType line rest

/-- The lines of the relationships by resource type. -/
def lineGroups (relationships : List Relationship) : List (String × List String) :=
  relationships.foldl (fun groups relationship =>
    pushLine relationship.resource.objectType.value relationship.display groups) []

/-- One file: the lines sorted, with a line break behind the last one. -/
def relationshipFile (resourceType : String) (lines : List String) : PolicyTextFile :=
  let contents := String.intercalate "\n" (sortByName id lines)
  ⟨"relationships/" ++ resourceType ++ ".zedtuples",
    if contents.isEmpty then contents else contents ++ "\n"⟩

def relationshipFiles (relationships : List Relationship) : List PolicyTextFile :=
  (lineGroups relationships).map (fun group => relationshipFile group.1 group.2)

def exportPolicyText (listing : MapListing) (configs : NamespaceConfigs)
    (relationships : List Relationship) : PolicyText where
  schema := canonicalSchemaSource listing configs
  relationshipFiles := relationshipFiles relationships

/-! ## The groups of lines -/

/-- The lines under a resource type. -/
def linesAt (resourceType : String) : List (String × List String) → List String
  | [] => []
  | (key, lines) :: rest => if key = resourceType then lines else linesAt resourceType rest

theorem linesAt_of_notMem
    {key : String} {groups : List (String × List String)}
    (h : key ∉ groups.map (·.1)) :
    linesAt key groups = [] := by
  induction groups with
  | nil => rfl
  | cons group rest ih =>
      rw [List.map_cons, List.mem_cons, not_or] at h
      rw [linesAt, if_neg (Ne.symm h.1), ih h.2]

theorem keys_pushLine
    {resourceType line key : String} {groups : List (String × List String)} :
    key ∈ (pushLine resourceType line groups).map (·.1) ↔
      key = resourceType ∨ key ∈ groups.map (·.1) := by
  induction groups with
  | nil => simp [pushLine]
  | cons group rest ih =>
      rw [pushLine]
      split_ifs with hless hsame
      · simp
      · simp [hsame]
      · simp only [List.map_cons, List.mem_cons, ih]
        tauto

theorem sorted_pushLine
    {resourceType line : String} {groups : List (String × List String)}
    (h : (groups.map (·.1)).Pairwise (· < ·)) :
    ((pushLine resourceType line groups).map (·.1)).Pairwise (· < ·) := by
  induction groups with
  | nil => simp [pushLine]
  | cons group rest ih =>
      obtain ⟨hfirst, hrest⟩ := List.pairwise_cons.mp h
      rw [pushLine]
      split_ifs with hless hsame
      · refine List.pairwise_cons.mpr ⟨?_, h⟩
        intro key hkey
        rcases List.mem_cons.mp hkey with rfl | hkey
        · exact hless
        · exact hless.trans (hfirst key hkey)
      · exact h
      · refine List.pairwise_cons.mpr ⟨?_, ih hrest⟩
        intro key hkey
        rcases keys_pushLine.mp hkey with rfl | hkey
        · exact lt_of_le_of_ne (not_lt.mp hless) (Ne.symm hsame)
        · exact hfirst key hkey

theorem linesAt_pushLine
    {resourceType line : String} {groups : List (String × List String)}
    (h : (groups.map (·.1)).Pairwise (· < ·))
    (key : String) :
    linesAt key (pushLine resourceType line groups) =
      linesAt key groups ++ if key = resourceType then [line] else [] := by
  induction groups with
  | nil => simp [pushLine, linesAt, eq_comm]
  | cons group rest ih =>
      obtain ⟨hfirst, hrest⟩ := List.pairwise_cons.mp h
      rw [pushLine]
      by_cases hless : resourceType < group.1
      · rw [if_pos hless]
        by_cases hkey : key = resourceType
        · subst hkey
          have hnot : key ∉ (group :: rest).map (·.1) := by
            rw [List.map_cons, List.mem_cons, not_or]
            exact ⟨hless.ne, fun hmem => (hless.trans (hfirst key hmem)).false⟩
          rw [linesAt_of_notMem hnot]
          simp [linesAt]
        · simp [linesAt, hkey, Ne.symm hkey]
      · by_cases hsame : resourceType = group.1
        · subst hsame
          by_cases hkey : group.1 = key
          · simp [linesAt, hkey]
          · simp [linesAt, hkey, Ne.symm hkey]
        · have hrestLines := ih hrest
          rw [if_neg hless, if_neg hsame]
          by_cases hkey : group.1 = key
          · subst hkey
            simp [linesAt, Ne.symm hsame]
          · simpa [linesAt, hkey] using hrestLines

/-- What the groups of the relationships are. -/
structure Groups (relationships : List Relationship) (groups : List (String × List String)) :
    Prop where
  sorted : (groups.map (·.1)).Pairwise (· < ·)
  keys : ∀ key, key ∈ groups.map (·.1) ↔
    ∃ relationship ∈ relationships, relationship.resource.objectType.value = key
  lines : ∀ key, linesAt key groups = (relationships.filter (fun relationship =>
    relationship.resource.objectType.value = key)).map (·.display)

theorem groups_lineGroups
    (relationships : List Relationship) :
    Groups relationships (lineGroups relationships) := by
  have hstep : ∀ (rest before : List Relationship) (groups : List (String × List String)),
      Groups before groups → Groups (before ++ rest) (rest.foldl (fun groups relationship =>
        pushLine relationship.resource.objectType.value relationship.display groups) groups) := by
    intro rest
    induction rest with
    | nil =>
        intro before groups h
        simpa using h
    | cons relationship rest ih =>
        intro before groups h
        have hnext := ih (before ++ [relationship])
          (pushLine relationship.resource.objectType.value relationship.display groups)
          ⟨sorted_pushLine h.sorted, fun key => ?_, fun key => ?_⟩
        · simpa using hnext
        · rw [keys_pushLine, h.keys]
          simp [or_comm, eq_comm]
        · rw [linesAt_pushLine h.sorted, h.lines]
          by_cases hkey : key = relationship.resource.objectType.value
          · simp [hkey]
          · simp [hkey, Ne.symm hkey]
  exact hstep relationships [] [] ⟨List.Pairwise.nil, by simp, by simp [linesAt]⟩

/-- A sorted list of groups is its keys with their lines. -/
theorem eq_map_linesAt
    {groups : List (String × List String)}
    (h : (groups.map (·.1)).Pairwise (· < ·)) :
    groups = (groups.map (·.1)).map (fun key => (key, linesAt key groups)) := by
  induction groups with
  | nil => rfl
  | cons group rest ih =>
      obtain ⟨hfirst, hrest⟩ := List.pairwise_cons.mp h
      have hsame : (rest.map (·.1)).map (fun key => (key, linesAt key (group :: rest))) =
          (rest.map (·.1)).map (fun key => (key, linesAt key rest)) := by
        refine List.map_congr_left (fun key hkey => ?_)
        rw [linesAt, if_neg (hfirst key hkey).ne]
      rw [List.map_cons, List.map_cons, hsame, ← ih hrest]
      simp [linesAt]

/-- The files by resource type. -/
theorem relationshipFiles_eq
    (relationships : List Relationship) :
    relationshipFiles relationships =
      ((lineGroups relationships).map (·.1)).map (fun key => relationshipFile key
        ((relationships.filter (fun relationship =>
          relationship.resource.objectType.value = key)).map (·.display))) := by
  have h := groups_lineGroups relationships
  calc relationshipFiles relationships
      = (((lineGroups relationships).map (·.1)).map
          (fun key => (key, linesAt key (lineGroups relationships)))).map
            (fun group => relationshipFile group.1 group.2) :=
        congrArg (List.map _) (eq_map_linesAt h.sorted)
    _ = ((lineGroups relationships).map (·.1)).map
          (fun key => relationshipFile key (linesAt key (lineGroups relationships))) :=
        List.map_map
    _ = _ := List.map_congr_left (fun key _ => by rw [h.lines])

/-- The files do not depend on the order of the relationships. -/
theorem relationshipFiles_of_perm
    {relationships relationships' : List Relationship}
    (h : relationships.Perm relationships') :
    relationshipFiles relationships = relationshipFiles relationships' := by
  have hgroups := groups_lineGroups relationships
  have hgroups' := groups_lineGroups relationships'
  have hkeys : (lineGroups relationships).map (·.1) = (lineGroups relationships').map (·.1) := by
    refine List.Perm.eq_of_pairwise (fun _ _ _ _ hlt hlt' => (hlt.asymm hlt').elim) hgroups.sorted
      hgroups'.sorted ((List.perm_ext_iff_of_nodup hgroups.sorted.nodup
        hgroups'.sorted.nodup).mpr ?_)
    intro key
    rw [hgroups.keys, hgroups'.keys]
    exact exists_congr (fun relationship => and_congr_left' h.mem_iff)
  rw [relationshipFiles_eq, relationshipFiles_eq, hkeys]
  refine List.map_congr_left (fun key _ => ?_)
  have hsort := @sortByName_eq_of_perm _ id _ _ ((h.filter (fun relationship =>
    relationship.resource.objectType.value = key)).map (·.display)) (fun _ _ _ _ => id)
  simp only [relationshipFile, hsort]

/-! ## Reading the files back -/

open AsciiText

/-- A visible ASCII character. -/
def IsVisible (c : Char) : Prop :=
  33 ≤ c.toNat ∧ c.toNat ≤ 126

theorem isVisible_of_isTypeText
    {value : String}
    (h : IsTypeText value) :
    ∀ c ∈ value.toList, IsVisible c := by
  have hchar : ∀ c : Char, c.isAlphanum ∨ c = '_' → IsVisible c := by
    intro c hc
    have hlow : c.toNat < 128 → (c.isAlphanum ∨ c = '_') → 33 ≤ c.toNat ∧ c.toNat ≤ 126 :=
      fun hlt => forall_char (P := fun c => (c.isAlphanum ∨ c = '_') →
        33 ≤ c.toNat ∧ c.toNat ≤ 126) (by decide) hlt
    exact hlow (lt_of_isAlphanum hc) hc
  intro c hmem
  cases htext : value.toList with
  | nil => simp [htext] at hmem
  | cons first rest =>
      rw [htext] at hmem
      rcases List.mem_cons.mp hmem with rfl | hrest
      · have hfirst : c.isAlpha := h.first c (by rw [htext]; rfl)
        exact hchar c (.inl (by simp [Char.isAlphanum, hfirst]))
      · exact hchar c (h.rest c (by rw [htext]; exact hrest))

theorem isVisible_of_isIdText
    {value : String}
    (h : IsIdText value) :
    ∀ c ∈ value.toList, IsVisible c := by
  intro c hmem
  obtain ⟨⟨hlow, hhigh⟩, _⟩ := h.chars c hmem
  have hlow' : '!'.val.toNat ≤ c.val.toNat := UInt32.le_iff_toNat_le.mp hlow
  have hhigh' : c.val.toNat ≤ '~'.val.toNat := UInt32.le_iff_toNat_le.mp hhigh
  exact ⟨hlow', hhigh'⟩

theorem ObjectRef.isVisible_display
    (object : ObjectRef) :
    ∀ c ∈ object.display.toList, IsVisible c := by
  have htype := isVisible_of_isTypeText object.objectType.isText
  have hid := isVisible_of_isIdText object.objectId.isText
  have hcolon : IsVisible ':' := ⟨by decide, by decide⟩
  intro c hmem
  simp only [ObjectRef.display, String.toList_append, List.mem_append] at hmem
  rcases hmem with (hmem | hmem) | hmem
  · exact htype c hmem
  · rw [List.mem_singleton.mp hmem]
    exact hcolon
  · exact hid c hmem

/-- The printed form of a relationship holds no white space. -/
theorem Relationship.isVisible_display
    (relationship : Relationship) :
    ∀ c ∈ relationship.display.toList, IsVisible c := by
  have hhash : IsVisible '#' := ⟨by decide, by decide⟩
  have hat : IsVisible '@' := ⟨by decide, by decide⟩
  have hsubject : ∀ c ∈ relationship.subject.display.toList, IsVisible c := by
    cases relationship.subject with
    | object target => exact target.isVisible_display
    | userset target relation =>
        intro c hmem
        simp only [SubjectRef.display, String.toList_append, List.mem_append] at hmem
        rcases hmem with (hmem | hmem) | hmem
        · exact target.isVisible_display c hmem
        · rw [List.mem_singleton.mp hmem]
          exact hhash
        · exact isVisible_of_isTypeText relation.isText c hmem
  intro c hmem
  simp only [Relationship.display, String.toList_append, List.mem_append] at hmem
  rcases hmem with (((hmem | hmem) | hmem) | hmem) | hmem
  · exact relationship.resource.isVisible_display c hmem
  · rw [List.mem_singleton.mp hmem]
    exact hhash
  · exact isVisible_of_isTypeText relationship.relation.isText c hmem
  · rw [List.mem_singleton.mp hmem]
    exact hat
  · exact hsubject c hmem

/-- It starts with a letter. -/
theorem Relationship.head_display
    (relationship : Relationship) :
    ∃ c rest, relationship.display.toList = c :: rest ∧ c.isAlpha := by
  have htype : IsTypeText relationship.resource.objectType.value :=
    relationship.resource.objectType.isText
  obtain ⟨c, rest, htext, _⟩ := isName_of_isTypeText htype
  obtain ⟨tail, htail⟩ : ∃ tail, relationship.display.toList =
      relationship.resource.objectType.value.toList ++ tail := by
    simp only [Relationship.display, ObjectRef.display, String.toList_append, List.append_assoc]
    exact ⟨_, rfl⟩
  rw [htail, htext]
  exact ⟨c, rest ++ tail, rfl, htype.first c (by rw [htext]; rfl)⟩

/-- A line that the reader takes as it is. -/
structure IsLine (line : String) : Prop where
  visible : ∀ c ∈ line.toList, IsVisible c
  head : ∃ c rest, line.toList = c :: rest ∧ c.isAlpha

theorem isLine_display
    (relationship : Relationship) :
    IsLine relationship.display :=
  ⟨relationship.isVisible_display, relationship.head_display⟩

theorem trimChars_of_visible
    {line : List Char}
    (h : ∀ c ∈ line, IsVisible c) :
    trimChars line = line := by
  have hblank : ∀ c, IsVisible c → isUnicodeWhitespace c = false := by
    rintro c ⟨hlow, hhigh⟩
    simp only [isUnicodeWhitespace, Bool.or_eq_false_iff, Bool.and_eq_false_iff,
      decide_eq_false_iff_not, beq_eq_false_iff_ne]
    omega
  have hdrop : ∀ chars : List Char, (∀ c ∈ chars, IsVisible c) →
      chars.dropWhile isUnicodeWhitespace = chars := by
    intro chars hchars
    cases chars with
    | nil => rfl
    | cons c rest => simp [hblank c (hchars c List.mem_cons_self)]
  rw [trimChars, hdrop line h, hdrop line.reverse (fun c hc => h c (List.mem_reverse.mp hc)),
    List.reverse_reverse]

/-- Each line ends with a line break. -/
theorem contents_relationshipFile
    {resourceType : String} {lines : List String}
    (h : ∀ line ∈ lines, IsLine line) :
    (relationshipFile resourceType lines).contents.toList =
      (sortByName id lines).flatMap (fun line => line.toList ++ ['\n']) := by
  have hsorted : ∀ line ∈ sortByName id lines, IsLine line := fun line hline =>
    h line ((perm_sortByName lines).mem_iff.mp hline)
  simp only [relationshipFile]
  generalize sortByName id lines = sorted at hsorted
  have hjoin : ∀ (rest : List String) (line : String),
      (String.intercalate "\n" (line :: rest)).toList ++ ['\n'] =
        (line :: rest).flatMap (fun line => line.toList ++ ['\n']) := by
    intro rest
    induction rest with
    | nil => simp
    | cons next rest ih =>
        intro line
        rw [String.intercalate_cons_cons, List.flatMap_cons, ← ih next]
        simp [String.toList_append]
  cases sorted with
  | nil => simp
  | cons line rest =>
      have hnonempty : (String.intercalate "\n" (line :: rest)).isEmpty = false := by
        obtain ⟨c, tail, htext, _⟩ := (hsorted line List.mem_cons_self).head
        have hlength := congrArg List.length (hjoin rest line)
        simp only [List.flatMap_cons, htext, List.length_append, List.length_cons] at hlength
        cases hempty : (String.intercalate "\n" (line :: rest)).isEmpty with
        | false => rfl
        | true =>
            rw [String.isEmpty_iff.mp hempty] at hlength
            simp at hlength
            omega
      rw [hnonempty, ← hjoin]
      simp [String.toList_append]

theorem textLines_of_lines
    {contents : String} {lines : List String}
    (h : ∀ line ∈ lines, IsLine line)
    (hcontents : contents.toList = lines.flatMap (fun line => line.toList ++ ['\n'])) :
    textLines contents = lines.map String.toList ++ [[]] := by
  rw [textLines, hcontents]
  clear hcontents
  induction lines with
  | nil => rfl
  | cons line rest ih =>
      have hnot : '\n' ∉ line.toList := by
        intro hmem
        have hvisible := (h line List.mem_cons_self).visible _ hmem
        exact absurd hvisible.1 (by decide)
      rw [List.flatMap_cons, List.append_assoc, List.singleton_append,
        List.splitOn_append_cons_self_of_not_mem hnot,
        ih (fun other hother => h other (List.mem_cons_of_mem _ hother))]
      rfl

/-- A file of printed relationships is read line by line. -/
theorem parseRelationshipFile_relationshipFile
    (resourceType : String) {lines : List String}
    (h : ∀ line ∈ lines, IsLine line) :
    parseRelationshipFile (relationshipFile resourceType lines) =
      (sortByName id lines).mapM (fun line => ofDomainError (Relationship.fromStr line)) := by
  have hsorted : ∀ line ∈ sortByName id lines, IsLine line := fun line hline =>
    h line ((perm_sortByName lines).mem_iff.mp hline)
  rw [parseRelationshipFile, textLines_of_lines hsorted (contents_relationshipFile h)]
  generalize sortByName id lines = sorted at hsorted
  have htrim : (sorted.map String.toList ++ [[]]).map trimChars =
      sorted.map String.toList ++ [[]] := by
    rw [List.map_append, List.map_map]
    refine congrArg (· ++ _) (List.map_congr_left (fun line hline => ?_))
    exact trimChars_of_visible (hsorted line hline).visible
  have hkeep : (sorted.map String.toList ++ [[]]).filter (fun line =>
      !(line.isEmpty || isCommentLine line)) = sorted.map String.toList := by
    rw [List.filter_append, List.filter_eq_self.mpr]
    · simp
    · intro chars hchars
      obtain ⟨line, hline, rfl⟩ := List.mem_map.mp hchars
      obtain ⟨c, rest, htext, hc⟩ := (hsorted line hline).head
      rw [htext]
      have hcomment : isCommentLine (c :: rest) = false := by
        unfold isCommentLine
        split
        · next heq =>
            cases heq
            exact absurd hc (by decide)
        · next heq =>
            cases heq
            exact absurd hc (by decide)
        · rfl
      simp [hcomment]
  rw [htrim, hkeep, List.mapM_map]
  simp only [Function.comp_def, String.ofList_toList]

/-- The texts that are short enough to be read. -/
def Relationship.Readable (relationship : Relationship) : Prop :=
  relationship.display.utf8ByteSize ≤ maxRelationshipBytes

theorem ofDomainError_fromStr_iff
    {relationship relationship' : Relationship} :
    ofDomainError (Relationship.fromStr relationship.display) = .ok relationship' ↔
      relationship'.display = relationship.display ∧ relationship.Readable := by
  have hread : Relationship.fromStr relationship.display = .ok relationship' ↔
      relationship'.display = relationship.display ∧ relationship.Readable :=
    Relationship.fromStr_ok_iff
  rw [← hread]
  constructor
  · exact mapError_eq_ok
  · intro h
    rw [h]
    rfl

/-- Relationships are read back from their printed forms. -/
theorem mapM_fromStr_display
    {relationships : List Relationship}
    (h : ∀ relationship ∈ relationships, relationship.Readable) :
    (relationships.map (·.display)).mapM (fun line =>
      ofDomainError (Relationship.fromStr line)) = .ok relationships := by
  rw [mapM_eq_ok_iff, List.forall₂_map_left_iff, List.forall₂_same]
  intro relationship hrelationship
  exact ofDomainError_fromStr_iff.mpr ⟨rfl, h relationship hrelationship⟩

/-- Splitting a list by a key and putting the parts together. -/
theorem flatMap_filter_perm
    {α β : Type} [DecidableEq β] {key : α → β} {keys : List β} {items : List α}
    (hdistinct : keys.Nodup)
    (hkeys : ∀ item ∈ items, key item ∈ keys) :
    (keys.flatMap (fun k => items.filter (fun item => key item = k))).Perm items := by
  induction keys generalizing items with
  | nil =>
      cases items with
      | nil => exact .refl _
      | cons item rest =>
          exact absurd (hkeys item List.mem_cons_self) List.not_mem_nil
  | cons k rest ih =>
      obtain ⟨hk, hrest⟩ := List.nodup_cons.mp hdistinct
      have hothers := @ih (items.filter (fun item => !decide (key item = k))) hrest
        (fun item hitem => by
          obtain ⟨hmem, hne⟩ := List.mem_filter.mp hitem
          have hne' : key item ≠ k := by simpa using hne
          exact (List.mem_cons.mp (hkeys item hmem)).resolve_left hne')
      have hsame :
          rest.flatMap (fun k' => (items.filter (fun item => !decide (key item = k))).filter
          (fun item => key item = k')) =
            rest.flatMap (fun k' => items.filter (fun item => key item = k')) := by
        refine List.flatMap_congr (fun k' hk' => ?_)
        rw [List.filter_filter]
        refine List.filter_congr (fun item _ => ?_)
        by_cases hitem : key item = k'
        · have hne : k' ≠ k := by
            rintro rfl
            exact hk hk'
          simp [hitem, hne]
        · simp [hitem]
      rw [hsame] at hothers
      rw [List.flatMap_cons]
      exact (hothers.append_left _).trans (List.filter_append_perm _ items)

/-- The relationships of the files, in the order of the files. -/
def fileRelationships (relationships : List Relationship) : List Relationship :=
  ((lineGroups relationships).map (·.1)).flatMap (fun key =>
    relationships.filter (fun relationship => relationship.resource.objectType.value = key))

theorem fileRelationships_perm
    (relationships : List Relationship) :
    (fileRelationships relationships).Perm relationships := by
  have h := groups_lineGroups relationships
  exact flatMap_filter_perm h.sorted.nodup
    (fun relationship hmem => (h.keys _).mpr ⟨relationship, hmem, rfl⟩)

/-- One file is read back as its relationships in another order. -/
theorem parseRelationshipFile_display
    (resourceType : String) {relationships : List Relationship}
    (h : ∀ relationship ∈ relationships, relationship.Readable) :
    ∃ read, parseRelationshipFile (relationshipFile resourceType
        (relationships.map (·.display))) = .ok read ∧ relationships.Perm read := by
  have hlines : ∀ line ∈ relationships.map (·.display), IsLine line := by
    intro line hline
    obtain ⟨relationship, _, rfl⟩ := List.mem_map.mp hline
    exact isLine_display relationship
  rw [parseRelationshipFile_relationshipFile resourceType hlines]
  exact exists_mapM_of_perm (mapM_fromStr_display h) (perm_sortByName _).symm

/-- The files of a list of keys are read back one after the other. -/
theorem mapM_parseRelationshipFile
    {keys : List String} {relationships : List Relationship}
    (h : ∀ relationship ∈ relationships, relationship.Readable) :
    ∃ read, (keys.map (fun key => relationshipFile key ((relationships.filter
        (fun relationship => relationship.resource.objectType.value = key)).map
          (·.display)))).mapM parseRelationshipFile = .ok read ∧
      (keys.flatMap (fun key => relationships.filter (fun relationship =>
        relationship.resource.objectType.value = key))).Perm read.flatten := by
  induction keys with
  | nil => exact ⟨[], rfl, .refl _⟩
  | cons key rest ih =>
      obtain ⟨read, hread, hperm⟩ := ih
      obtain ⟨first, hfirst, hfirstPerm⟩ := @parseRelationshipFile_display key
        (relationships.filter (fun relationship => relationship.resource.objectType.value = key))
        (fun relationship hmem => h relationship (List.mem_of_mem_filter hmem))
      refine ⟨first :: read,
        mapM_eq_ok_iff.mpr (.cons hfirst (mapM_eq_ok_iff.mp hread)), ?_⟩
      rw [List.flatMap_cons, List.flatten_cons]
      exact hfirstPerm.append hperm

/-- What the files are read back as, if each relationship is short enough. -/
theorem parseRelationships_relationshipFiles
    {relationships : List Relationship}
    (h : ∀ relationship ∈ relationships, relationship.Readable)
    (schema : String) :
    ∃ read, parseRelationships ⟨schema, relationshipFiles relationships⟩ = .ok read ∧
      relationships.Perm read := by
  obtain ⟨files, hfiles, hperm⟩ :=
    @mapM_parseRelationshipFile ((lineGroups relationships).map (·.1)) relationships h
  refine ⟨files.flatten, ?_, (fileRelationships_perm relationships).symm.trans hperm⟩
  refine bind_eq_ok.mpr ⟨files, ?_, rfl⟩
  exact (congrArg (fun files => files.mapM parseRelationshipFile)
    (relationshipFiles_eq relationships)).trans hfiles

/-- A relationship that is too long is not read. -/
theorem readable_of_parseRelationships
    {relationships read : List Relationship} {schema : String}
    (h : parseRelationships ⟨schema, relationshipFiles relationships⟩ = .ok read) :
    ∀ relationship ∈ relationships, relationship.Readable := by
  obtain ⟨files, hfiles, _⟩ := bind_eq_ok.mp h
  have hgroups := groups_lineGroups relationships
  intro relationship hrelationship
  obtain ⟨key, hkey⟩ : ∃ key, key = relationship.resource.objectType.value := ⟨_, rfl⟩
  have hlines : ∀ line ∈ (relationships.filter (fun relationship =>
      relationship.resource.objectType.value = key)).map (·.display), IsLine line := by
    intro line hline
    obtain ⟨relationship, _, rfl⟩ := List.mem_map.mp hline
    exact isLine_display relationship
  have hfile : relationshipFile key ((relationships.filter (fun relationship =>
      relationship.resource.objectType.value = key)).map (·.display)) ∈
        relationshipFiles relationships := by
    rw [relationshipFiles_eq]
    exact List.mem_map.mpr ⟨key, (hgroups.keys key).mpr ⟨relationship, hrelationship, hkey.symm⟩,
      rfl⟩
  obtain ⟨lines, _, hread⟩ := (mapM_eq_ok_iff.mp hfiles).exists_right hfile
  rw [parseRelationshipFile_relationshipFile key hlines] at hread
  have hline : relationship.display ∈ sortByName id ((relationships.filter (fun relationship =>
      relationship.resource.objectType.value = key)).map (·.display)) :=
    (perm_sortByName _).mem_iff.mpr (List.mem_map.mpr ⟨relationship,
      List.mem_filter.mpr ⟨hrelationship, by simp [hkey]⟩, rfl⟩)
  obtain ⟨found, _, hfound⟩ := (mapM_eq_ok_iff.mp hread).exists_right hline
  exact (ofDomainError_fromStr_iff.mp hfound).2

/-- What is read back are the relationships in another order. -/
theorem perm_of_parseRelationships
    {relationships read : List Relationship} {schema : String}
    (h : parseRelationships ⟨schema, relationshipFiles relationships⟩ = .ok read) :
    read.Perm relationships := by
  obtain ⟨read', hread', hperm⟩ :=
    parseRelationships_relationshipFiles (readable_of_parseRelationships h) schema
  rw [h] at hread'
  cases hread'
  exact hperm.symm

/-- The exported files are read back exactly if no relationship is longer than the parser
accepts, and then as the same relationships in another order, which have the same files. -/
theorem parseRelationships_relationshipFiles_iff
    (relationships : List Relationship) (schema : String) :
    ((∃ read, parseRelationships ⟨schema, relationshipFiles relationships⟩ = .ok read) ↔
        ∀ relationship ∈ relationships, relationship.Readable) ∧
      ∀ read, parseRelationships ⟨schema, relationshipFiles relationships⟩ = .ok read →
        read.Perm relationships ∧ relationshipFiles read = relationshipFiles relationships := by
  constructor
  · constructor
    · rintro ⟨read, hread⟩
      exact readable_of_parseRelationships hread
    · intro hreadable
      obtain ⟨read, hread, _⟩ := parseRelationships_relationshipFiles hreadable schema
      exact ⟨read, hread⟩
  · intro read hread
    have hperm := perm_of_parseRelationships hread
    exact ⟨hperm, relationshipFiles_of_perm hperm⟩

/-! ## Applying an exported policy -/

/-- The same schema admits the same relationships. -/
theorem CompiledSchema.validateRelationship_of_same
    {schema schema' : CompiledSchema}
    (haccepted : schema.Accepted)
    (haccepted' : schema'.Accepted)
    (hsame : schema.Same Eq schema')
    {relationship : Relationship}
    (h : schema.validateRelationship relationship = .ok ()) :
    schema'.validateRelationship relationship = .ok () := by
  obtain ⟨_, hdefinitions⟩ := haccepted
  obtain ⟨_, hdefinitions'⟩ := haccepted'
  obtain ⟨_, hresolver, _, hdistinct⟩ := fromDefinitions_eq_ok hdefinitions
  obtain ⟨_, hresolver', _, hdistinct'⟩ := fromDefinitions_eq_ok hdefinitions'
  have hrelation : ∀ (objectType : ObjectType) (name : RelationName),
      (∃ found, schema.resolver.relation objectType name = .ok found) →
        ∃ found, schema'.resolver.relation objectType name = .ok found := by
    rintro objectType name ⟨found, hfound⟩
    rw [hresolver] at hfound
    rw [hresolver']
    obtain ⟨definition, hmem, hname, hrelation, hfoundName⟩ :=
      (SchemaResolver.relation_eq_ok_iff_mem hdistinct).mp hfound
    obtain ⟨definition', hmem', hpair⟩ := hsame.exists_right hmem
    obtain ⟨found', hfound', hrelations⟩ := hpair.relations.exists_right hrelation
    exact ⟨found', (SchemaResolver.relation_eq_ok_iff_mem hdistinct').mpr
      ⟨definition', hmem', hpair.name.symm.trans hname, hfound',
        hrelations.name.symm.trans hfoundName⟩⟩
  obtain ⟨found, hfound, h⟩ := bind_eq_ok.mp h
  obtain ⟨found', hfound'⟩ := hrelation _ _ ⟨found, hfound⟩
  refine bind_eq_ok.mpr ⟨found', hfound', ?_⟩
  cases hsubject : relationship.subject with
  | object target => rfl
  | userset target relation =>
      rw [hsubject] at h
      obtain ⟨member, hmember, _⟩ := bind_eq_ok.mp h
      obtain ⟨member', hmember'⟩ := hrelation _ _ ⟨member, hmember⟩
      exact bind_eq_ok.mpr ⟨member', hmember', rfl⟩

theorem WriterState.nextRevision_error
    {state : WriterState} {error : ZanzibarError}
    (h : state.nextRevision = .error error) :
    error = .revisionOverflow := by
  unfold WriterState.nextRevision at h
  split at h
  · unfold Revision.next at h
    split at h
    · cases h
    · cases h
      rfl
  · cases h

theorem forM_validate_creates
    {schema : CompiledSchema} {relationships : List Relationship}
    (h : ∀ relationship ∈ relationships, schema.validateRelationship relationship = .ok ()) :
    (relationships.map RelationshipMutation.create).forM (fun mutation =>
      ofSchemaError (schema.validateRelationship mutation.relationship)) = .ok () := by
  induction relationships with
  | nil => rfl
  | cons relationship rest ih =>
      obtain ⟨hfirst, hrest⟩ := List.forall_mem_cons.mp h
      have hvalid : ofSchemaError (schema.validateRelationship relationship) = .ok () := by
        rw [hfirst]
        rfl
      exact bind_eq_ok.mpr ⟨(), hvalid, ih hrest⟩

theorem batchResult_creates
    (set : Finset Relationship) (relationships : List Relationship) :
    batchResult set (relationships.map .create) = set ∪ relationships.toFinset := by
  have hadds : (relationships.map RelationshipMutation.create).filter (·.adds) =
      relationships.map .create :=
    List.filter_eq_self.mpr (fun mutation hmem => by
      obtain ⟨relationship, _, rfl⟩ := List.mem_map.mp hmem
      rfl)
  have hsame : relationships.map (fun relationship =>
      (RelationshipMutation.create relationship).relationship) = relationships :=
    List.map_id _
  rw [batchResult, hadds, List.map_map, Function.comp_def, hsame]
  simp

/-- What readers see as text. -/
def EngineState.exportPolicyText [Blake3] (listing : MapListing) (state : EngineState) :
    PolicyText :=
  SimpleZanzibar.exportPolicyText listing state.latestSnapshot.configs
    state.latestSnapshot.relationships.rows

namespace EngineWriter

variable [Blake3] [StoreHasher]

/-- The failures that do not depend on what is written. -/
def IsExhausted (error : ZanzibarError) : Prop :=
  error = .revisionOverflow ∨ ∃ capacity : StoreError, error = .store capacity ∧
    capacity.IsCapacity

/-- The writer of a private state into which relationships are imported. -/
structure Importing (configs : NamespaceConfigs) (compiled : CompiledSchema)
    (set : Finset Relationship) (token : ConsistencyToken) (writer : EngineWriter) : Prop where
  configs : writer.configs = configs
  schema : writer.schema = some compiled
  inv : writer.relationships.Inv
  liveSet : writer.relationships.liveSet = set
  hash : token.schemaHash = SchemaHash.forSchema compiled
  published : ∃ before snapshot, writer = afterPublish before snapshot

theorem ensures_publishSnapshot
    {writer : EngineWriter} {configs : NamespaceConfigs} {schema : CompiledSchema}
    {relationships : RelationshipStoreView} {set : Finset Relationship}
    (hinv : relationships.Inv)
    (hset : relationships.liveSet = set) :
    (publishSnapshot configs schema relationships).Ensures writer
      (Importing configs schema set) IsExhausted := by
  have happly := publishSnapshot_apply writer configs schema relationships
  cases hrevision : writer.core.nextRevision with
  | error error =>
      rw [hrevision] at happly
      exact Action.Ensures.of_error happly (.inl (WriterState.nextRevision_error hrevision))
  | ok revision =>
      rw [hrevision] at happly
      exact Action.Ensures.of_ok happly ⟨rfl, rfl, hinv, hset, rfl, _, _, rfl⟩

/-- A batch of new, valid relationships is created, if there is room. -/
theorem ensures_createBatch
    {writer : EngineWriter} {configs : NamespaceConfigs} {schema : CompiledSchema}
    {set : Finset Relationship} {token : ConsistencyToken} {relationships : List Relationship}
    (h : Importing configs schema set token writer)
    (hsize : relationships.length ≤ policyImportBatchSize)
    (hdistinct : relationships.Nodup)
    (hnew : ∀ relationship ∈ relationships, relationship ∉ set)
    (hvalid : ∀ relationship ∈ relationships,
      schema.validateRelationship relationship = .ok ()) :
    (applyRelationshipMutations (relationships.map .create) []).Ensures writer
      (Importing configs schema (set ∪ relationships.toFinset)) IsExhausted := by
  have hsame : (relationships.map RelationshipMutation.create).map (·.relationship) =
      relationships := by
    rw [List.map_map]
    exact List.map_id _
  have hadmitted : BatchAdmitted writer.relationships.liveSet
      (relationships.map .create) := by
    refine ⟨by rwa [List.length_map], by rwa [hsame], ?_⟩
    intro mutation hmutation
    obtain ⟨relationship, hmem, rfl⟩ := List.mem_map.mp hmutation
    rw [h.liveSet]
    exact hnew relationship hmem
  have hout := h.inv.applyMutations (relationships.map .create) []
  unfold applyRelationshipMutations
  apply Action.Ensures.get_bind
  rw [h.schema]
  refine Action.Ensures.lift_bind (fun _ _ => ?_) (fun error herror => ?_)
  · refine Action.Ensures.lift_bind (fun _ _ => ?_) (fun error herror => (by cases herror))
    refine Action.Ensures.lift_bind (fun view hview => ?_) (fun error herror => ?_)
    · rw [mapError_eq_ok hview] at hout
      rw [h.configs]
      refine ensures_publishSnapshot hout.2.1 (hout.2.2.1.trans ?_)
      rw [h.liveSet, batchResult_creates]
    · cases hview : writer.relationships.applyMutations (relationships.map .create) [] with
      | ok view =>
          rw [hview] at herror
          cases herror
      | error capacity =>
          rw [hview] at hout herror
          cases herror
          rcases hout with hcapacity | hnot | hnil
          · exact .inr ⟨capacity, rfl, hcapacity⟩
          · exact absurd hadmitted hnot
          · exact absurd rfl hnil
  · rw [forM_validate_creates hvalid] at herror
    cases herror

/-- An import creates all the relationships, batch by batch, if there is room. -/
theorem ensures_importRelationships
    {writer : EngineWriter} {configs : NamespaceConfigs} {schema : CompiledSchema}
    {set : Finset Relationship} {token : ConsistencyToken} {relationships : List Relationship}
    (h : Importing configs schema set token writer)
    (hdistinct : relationships.Nodup)
    (hnew : ∀ relationship ∈ relationships, relationship ∉ set)
    (hvalid : ∀ relationship ∈ relationships,
      schema.validateRelationship relationship = .ok ()) :
    (importRelationships token relationships).Ensures writer
      (Importing configs schema (set ∪ relationships.toFinset)) IsExhausted := by
  fun_induction importRelationships token relationships generalizing writer set with
  | case1 token =>
      refine Action.Ensures.of_ok rfl ?_
      simpa using h
  | case2 token relationships hne batch =>
      rename_i ih
      have hsplit : batch ++ relationships.drop policyImportBatchSize = relationships :=
        List.take_append_drop _ _
      have hparts := hdistinct
      rw [← hsplit] at hparts
      obtain ⟨hbatch, hrest, hdisjoint⟩ := List.nodup_append.mp hparts
      have hmemBatch : ∀ relationship ∈ batch, relationship ∈ relationships :=
        fun _ => List.mem_of_mem_take
      have hmemRest : ∀ relationship ∈ relationships.drop policyImportBatchSize,
          relationship ∈ relationships :=
        fun _ => List.mem_of_mem_drop
      refine (ensures_createBatch h (List.length_take_le _ _) hbatch
        (fun r hr => hnew r (hmemBatch r hr)) (fun r hr => hvalid r (hmemBatch r hr))).bind ?_
      intro token' next hnext
      refine (ih token' hnext hrest ?_ (fun r hr => hvalid r (hmemRest r hr))).imp ?_
        (fun _ he => he)
      · intro r hr hmem
        rcases Finset.mem_union.mp hmem with hset | hcreated
        · exact hnew r (hmemRest r hr) hset
        · exact hdisjoint r (List.mem_toFinset.mp hcreated) r hr rfl
      · intro token'' last hlast
        have hset : set ∪ batch.toFinset ∪ (relationships.drop policyImportBatchSize).toFinset =
            set ∪ relationships.toFinset := by
          rw [Finset.union_assoc, ← List.toFinset_append, hsplit]
        rwa [hset] at hlast

/-- A candidate that reads an exported policy holds what was exported. -/
theorem ensures_buildCandidate
    {listing : MapListing} {configs : NamespaceConfigs} {schema : CompiledSchema}
    {relationships : List Relationship}
    (h : compileLegacyConfigs listing (listing.namespaces configs) = .ok schema)
    (hdistinct : relationships.Nodup)
    (hvalid : ∀ relationship ∈ relationships,
      schema.validateRelationship relationship = .ok ())
    (target : EngineWriter) (listing' listing'' : MapListing) :
    ∃ schema', schema.Same Eq schema' ∧
      SchemaHash.forSchema schema = SchemaHash.forSchema schema' ∧
      (buildCandidate listing'' (SimpleZanzibar.exportPolicyText listing' configs
        relationships)).Ensures target.candidate
          (Importing (WriterState.insertConfigs ∅ (configs.refiled listing')) schema'
            relationships.toFinset)
          (fun error => IsExhausted error ∨
            ∃ relationship ∈ relationships, ¬ relationship.Readable) := by
  obtain ⟨schema', haccepted, hsame, hhash, hreplace⟩ :=
    @replaceDslWithToken_export _ _ _ _ _ h target.candidate rfl listing' listing''
  refine ⟨schema', hsame, hhash, ?_⟩
  have hempty : RelationshipStoreView.default.liveSet = ∅ :=
    Finset.eq_empty_of_forall_notMem (fun r hr => (by cases hr))
  have hfirst : (replaceDslWithToken listing'' (canonicalSchemaSource listing' configs)).Ensures
      target.candidate (Importing (WriterState.insertConfigs ∅ (configs.refiled listing'))
        schema' ∅) (fun error => IsExhausted error ∨
          ∃ relationship ∈ relationships, ¬ relationship.Readable) := by
    have hpublish := (@ensures_publishSnapshot _ _ target.candidate
      (WriterState.insertConfigs ∅ (configs.refiled listing')) schema' _ _
      RelationshipStoreView.inv_default hempty).imp (fun _ _ hpost => hpost)
        (fun _ => @Or.inl _ (∃ relationship ∈ relationships, ¬ relationship.Readable))
    unfold Action.Ensures at hpublish ⊢
    rwa [hreplace]
  refine hfirst.bind (fun token writer himporting => ?_)
  refine Action.Ensures.lift_bind (fun read hread => ?_) (fun error herror => .inr ?_)
  · have hperm : read.Perm relationships := perm_of_parseRelationships hread
    have hset : ∅ ∪ read.toFinset = relationships.toFinset := by
      rw [Finset.empty_union, List.toFinset_eq_of_perm _ _ hperm]
    have himport := ensures_importRelationships himporting (hperm.nodup_iff.mpr hdistinct)
      (fun r _ => Finset.notMem_empty r) (fun r hr =>
        CompiledSchema.validateRelationship_of_same (WriterState.accepted_of_compile h) haccepted
          hsame (hvalid r (hperm.mem_iff.mp hr)))
    rw [hset] at himport
    refine (himport.imp (fun _ _ hpost => hpost) (fun _ => .inl)).bind ?_
    intro token' next hnext
    obtain ⟨before, snapshot, rfl⟩ := hnext.published
    exact Action.Ensures.of_ok rfl hnext
  · by_contra hnone
    push Not at hnone
    obtain ⟨read, hread, _⟩ := parseRelationships_relationshipFiles hnone
      (canonicalSchemaSource listing' configs)
    have hfiles : parseRelationships (SimpleZanzibar.exportPolicyText listing' configs
        relationships) = .ok read := hread
    rw [hfiles] at herror
    cases herror

/-- Whatever commands an engine has run, a policy that it exports, applied to any engine in
whatever order the maps are listed, publishes the same schema under the same hash with the same
relationships, and what is exported then is the same policy again.  Otherwise the engine is left
as it was, and there was no room for a revision or for the rows, or the text of a relationship
is longer than the parser accepts. -/
theorem exportedPolicy_restores
    (commands : List (MapListing × EngineCommand)) (datastoreId : DatastoreId)
    (retainedSnapshots : ℕ+) (limits : EvaluationLimits) (target : EngineWriter)
    (listing listing' : MapListing) :
    let writer := EngineCommand.runAll commands (.new datastoreId retainedSnapshots limits)
    writer.publishedState = none ∨ ∃ published, writer.publishedState = some published ∧
      let policy := published.exportPolicyText listing
      let latest := published.latestSnapshot
      (∃ token writer' published', applyPolicyText listing' policy target = (.ok token, writer') ∧
        writer'.publishedState = some published' ∧
        token.schemaHash = latest.schemaHash ∧
        latest.schema.Same Eq published'.latestSnapshot.schema ∧
        published'.latestSnapshot.relationships.liveSet = latest.relationships.liveSet ∧
        ∀ listing'', published'.exportPolicyText listing'' = policy) ∨
      ∃ error, applyPolicyText listing' policy target = (.error error, target) ∧
        (IsExhausted error ∨
          ∃ relationship ∈ latest.relationships.rows, ¬ relationship.Readable) := by
  intro writer
  have hsound : writer.Sound := EngineCommand.sound_runAll (sound_new _ _ _) commands
  cases hschema : writer.schema with
  | none =>
      left
      rw [hsound.unpublished hschema]
      rfl
  | some schema =>
      obtain ⟨snapshot, hlatest⟩ := hsound.latest schema hschema
      refine .inr ⟨_, hlatest.published, ?_⟩
      obtain ⟨_, hcompile⟩ := hsound.coherent.compiled schema hschema
      have hsnapshot : snapshot.schema = schema :=
        Option.some.inj (hlatest.schema.symm.trans hschema)
      have hrows := hsound.coherent.relationships.nodup_rows
      obtain ⟨schema', hsame, hhash, hbuild⟩ := ensures_buildCandidate hcompile hrows
        (hsound.coherent.valid schema hschema) target listing listing'
      have hpolicy : EngineState.exportPolicyText listing ⟨snapshot, writer.snapshotHistory,
          writer.datastoreId, snapshot.revision, writer.evaluationLimits⟩ =
            SimpleZanzibar.exportPolicyText listing writer.configs writer.relationships.rows := by
        rw [EngineState.exportPolicyText, hlatest.configs, hlatest.relationships]
      simp only [hpolicy, hlatest.relationships, hlatest.schemaHash, hsnapshot]
      rcases hbuild.cases with ⟨token, next, hrun, himporting⟩ | ⟨error, next, hrun, herror⟩
      · left
        obtain ⟨before, last, rfl⟩ := himporting.published
        have hlast : last.schema = schema' := Option.some.inj himporting.schema
        have hset : last.relationships.liveSet = writer.relationships.rows.toFinset :=
          himporting.liveSet
        refine ⟨token, before.afterPublish last, before.engineState last, ?_, rfl,
          himporting.hash.trans hhash.symm, ?_, hset, ?_⟩
        · rw [applyPolicyText, hrun]
        · rw [engineState, hlast]
          exact hsame
        · intro listing''
          have htext := canonicalSchemaSource_refiled (namesDistinct_of_compile hcompile)
            listing listing''
          have hconfigs : last.configs =
              WriterState.insertConfigs ∅ (writer.configs.refiled listing) :=
            himporting.configs
          have hperm : last.relationships.rows.Perm writer.relationships.rows :=
            List.perm_of_nodup_nodup_toFinset_eq himporting.inv.nodup_rows hrows hset
          rw [EngineState.exportPolicyText, SimpleZanzibar.exportPolicyText, engineState,
            hconfigs, htext, relationshipFiles_of_perm hperm]
          rfl
      · refine .inr ⟨error, ?_, herror⟩
        rw [applyPolicyText, hrun]

end EngineWriter

end SimpleZanzibar
