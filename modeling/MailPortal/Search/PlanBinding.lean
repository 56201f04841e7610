import MailPortal.Search.Plan

/-!
# The Parameters of a Search

Every placeholder of the two statements of a search is bound to the value that it was made for. With
the parameters in their places the statements are those that one would write down with the values in
them (`fragmentsMeant`, `dataMeant`), in which no number is left.

Main results:

* `dataSql_bound`, `countSql_bound` : the statements with their parameters in place.
* `buildMailSearchPlan_eq_ok` : what a plan was made from, and that it has at most 100 parameters.
-/

namespace MailPortal.Search

open Failure Placeholders

variable {search : NormalizedSearch}

/-! ### Parameters in place -/

/-- The fragments with their parameters in place. -/
def Fragments.bind {π ρ : Type} (bound : π → Option ρ) (f : Fragments π) :
    Option (Fragments ρ) := do
  let «where» ← f.where.bind bound
  let relevance ← f.relevance.mapM fun part =>
    part.mapM fun weighted => (weighted.1.bind bound).map fun condition => (condition, weighted.2)
  return { «where», relevance }

/-- The statement with its parameters in place. -/
def DataStatement.bind {π ρ : Type} (bound : π → Option ρ) (statement : DataStatement π) :
    Option (DataStatement ρ) := do
  let fragments ← statement.fragments.bind bound
  let snippet ← statement.snippet.mapM bound
  let matchedAttachment ← statement.matchedAttachment.mapM (Cond.bind bound)
  let limit ← bound statement.limit
  let offset ← bound statement.offset
  return { fragments, snippet, matchedAttachment, order := statement.order, limit, offset }

/-! ### What is meant -/

/-- The pattern that finds a text. -/
def patternOf (value : String) : Value := .text ("%" ++ escapeLike value ++ "%")

/-- One of the values is in one of the columns. -/
def orLikeMeant (first : Column) (rest : List Column) (value : String) (values : List String) :
    Cond Value :=
  anyOf (likeAny first rest (patternOf value))
    (values.map fun value => likeAny first rest (patternOf value))

/-- A filter without values asks for nothing. -/
def filterMeant (values : List String) (meant : String → List String → Cond Value) :
    List (Cond Value) :=
  match values with
  | [] => []
  | value :: values => [meant value values]

/-- The folder of the message has one of the names. -/
def folderMeant (folder : String) (folders : List String) : Cond Value :=
  .exists_ .folders (.and (.eq (.column .folderId) (.column (.e .folder_id)))
    (anyOf (folderCondition (.text folder)) (folders.map fun folder =>
      folderCondition (.text folder))))

/-- The message has the label. -/
def labelMeant (label : String) : Cond Value :=
  .exists_ .email_labels (.and (.eq (.column .labelEmailId) (.column (.e .id)))
    (.eq (.column .labelId) (.param (.text label))))

/-- The fragments with the values of the search in them. -/
def fragmentsMeant (search : NormalizedSearch) : Fragments Value where
  «where» := allOf (.ne (.column (.e .folder_id)) (.literal RETIRED_OUTBOUND))
    (search.needles.map (fun needle => needleCondition (patternOf needle)) ++
      filterMeant search.«from» (orLikeMeant (.e .sender) []) ++
      filterMeant search.«to» (orLikeMeant (.e .recipient) [.e .cc, .e .bcc]) ++
      filterMeant search.subject (orLikeMeant (.e .subject) []) ++
      filterMeant search.filename (fun value values =>
        someAttachment [orLikeMeant .attachmentFilename [] value values]) ++
      filterMeant search.folder folderMeant ++
      search.labelId.toList.map labelMeant ++
      (search.dateStart.filter (· ≠ "")).toList.map
        (fun date => .ge (.column (.e .date)) (.param (.text date))) ++
      (search.dateEnd.filter (· ≠ "")).toList.map
        (fun date => .lt (.column (.e .date)) (.param (.text date))) ++
      search.isRead.toList.map (fun isRead => .flag .read (flagValue isRead)) ++
      search.isStarred.toList.map (fun isStarred => .flag .starred (flagValue isStarred)) ++
      (if search.hasAttachment then [someAttachment []] else []))
  relevance := search.needles.map fun needle => needleRelevance (patternOf needle)

/-- The statement with the values of the search in it. -/
def dataMeant (search : NormalizedSearch) (order : Option (String × Bool))
    (limit offset : JsNumber) : DataStatement Value where
  fragments := fragmentsMeant search
  snippet := search.needles.map .text
  matchedAttachment := (attachmentMatchValues search).map fun value =>
    .like .attachmentFilename (patternOf value)
  order
  limit := .number limit
  offset := .number offset

/-! ### Joined conditions -/

variable {π ρ : Type} {bound : π → Option ρ}

/-- Conditions one by one. -/
abbrev bindAll (bound : π → Option ρ) (conditions : List (Cond π)) : Option (List (Cond ρ)) :=
  conditions.mapM (Cond.bind bound)

/-- The first condition and the others. -/
theorem bindAll_cons_eq_some {c : Cond π} {cs : List (Cond π)} {ds : List (Cond ρ)} :
    bindAll bound (c :: cs) = some ds ↔
      ∃ d ds', c.bind bound = some d ∧ bindAll bound cs = some ds' ∧ ds = d :: ds' := by
  rw [bindAll, List.mapM_cons]
  constructor
  · intro h
    obtain ⟨d, hd, h⟩ := Option.bind_eq_some_iff.mp h
    obtain ⟨ds', hds', h⟩ := Option.bind_eq_some_iff.mp h
    exact ⟨d, ds', hd, hds', (Option.some.inj h).symm⟩
  · rintro ⟨d, ds', hd, hds', rfl⟩
    rw [hd, show cs.mapM (Cond.bind bound) = some ds' from hds']
    rfl

/-- Two lists of conditions, one after the other. -/
theorem bindAll_append {cs cs' : List (Cond π)} {ds ds' : List (Cond ρ)}
    (h : bindAll bound cs = some ds) (h' : bindAll bound cs' = some ds') :
    bindAll bound (cs ++ cs') = some (ds ++ ds') := by
  rw [bindAll, List.mapM_append, show cs.mapM (Cond.bind bound) = some ds from h,
    show cs'.mapM (Cond.bind bound) = some ds' from h']
  rfl

section

variable {c : Cond π} {cs : List (Cond π)} {d : Cond ρ} {ds : List (Cond ρ)}
  (h : c.bind bound = some d) (hs : bindAll bound cs = some ds)
include h hs

/-- Binding goes into an `OR`. -/
theorem bind_anyOf : (anyOf c cs).bind bound = some (anyOf d ds) := by
  induction cs generalizing c d ds with
  | nil =>
      cases hs
      exact h
  | cons c' cs ih =>
      obtain ⟨d', ds', h', hs', rfl⟩ := bindAll_cons_eq_some.mp hs
      have hhead : (Cond.or c c').bind bound = some (.or d d') := by
        rw [Cond.bind, h, Option.bind_some, h']
        rfl
      have hrest := ih hhead hs'
      exact hrest

/-- Binding goes into an `AND`. -/
theorem bind_allOf : (allOf c cs).bind bound = some (allOf d ds) := by
  induction cs generalizing c d ds with
  | nil =>
      cases hs
      exact h
  | cons c' cs ih =>
      obtain ⟨d', ds', h', hs', rfl⟩ := bindAll_cons_eq_some.mp hs
      have hhead : (Cond.and c c').bind bound = some (.and d d') := by
        rw [Cond.bind, h, Option.bind_some, h']
        rfl
      have hrest := ih hhead hs'
      exact hrest

end

/-- One pattern for several columns. -/
theorem bindAll_map_like {p : π} {r : ρ} (h : bound p = some r) (columns : List Column) :
    bindAll bound (columns.map fun column => .like column p) =
      some (columns.map fun column => .like column r) := by
  induction columns with
  | nil => rfl
  | cons column columns ih =>
      refine bindAll_cons_eq_some.mpr ⟨_, _, ?_, ih, rfl⟩
      rw [Cond.bind, h]
      rfl

/-- One of the columns is like the pattern. -/
theorem bind_likeAny {p : π} {r : ρ} (h : bound p = some r) (first : Column)
    (rest : List Column) : (likeAny first rest p).bind bound = some (likeAny first rest r) := by
  refine bind_anyOf ?_ (bindAll_map_like h rest)
  rw [Cond.bind, h]
  rfl

/-- Binding goes into the attachments. -/
theorem bind_someAttachment {cs : List (Cond π)} {ds : List (Cond ρ)}
    (h : bindAll bound cs = some ds) :
    (someAttachment cs).bind bound = some (someAttachment ds) := by
  rw [someAttachment, Cond.bind, bind_allOf rfl h]
  rfl

/-- A needle, wherever it is looked for. -/
theorem bind_needleCondition {p : π} {r : ρ} (h : bound p = some r) :
    (needleCondition p).bind bound = some (needleCondition r) := by
  have hattachment : (someAttachment [Cond.like .attachmentFilename p]).bind bound =
      some (someAttachment [.like .attachmentFilename r]) :=
    bind_someAttachment (bindAll_map_like h [.attachmentFilename])
  rw [needleCondition, Cond.bind, bind_likeAny h, Option.bind_some, hattachment]
  rfl

/-- The weights of a needle stay. -/
theorem bind_needleRelevance {p : π} {r : ρ} (h : bound p = some r) :
    ((needleRelevance p).mapM fun weighted => (weighted.1.bind bound).map fun condition =>
      (condition, weighted.2)) = some (needleRelevance r) := by
  have hattachment : (someAttachment [Cond.like .attachmentFilename p]).bind bound =
      some (someAttachment [.like .attachmentFilename r]) :=
    bind_someAttachment (bindAll_map_like h [.attachmentFilename])
  simp [needleRelevance, hattachment, h, bind_likeAny h]

/-- A folder, by its name or its identifier. -/
theorem bind_folderCondition {p : π} {r : ρ} (h : bound p = some r) :
    (folderCondition p).bind bound = some (folderCondition r) := by
  simp [folderCondition, h]

/-! ### What is built -/

/-- A pattern that is made is the escaped value between two `%`. -/
theorem likePattern_eq_ok {value pattern : String} (h : likePattern value = .ok pattern) :
    pattern = "%" ++ escapeLike value ++ "%" := by
  obtain ⟨_, -, h⟩ := bind_eq_ok.mp h
  exact (pure_eq_ok.mp h).symm

/-- A pattern is bound to its placeholder. -/
theorem builds_addPattern (value : String) :
    Builds (fun bound n => bound n) (addPattern value) (patternOf value) := by
  refine builds_check fun pattern hpattern => ?_
  rw [likePattern_eq_ok hpattern]
  exact builds_add _

/-- A pattern for several columns is made once. -/
theorem builds_likeAny (first : Column) (rest : List Column) (value : String) :
    Builds Cond.bind (do let p ← addPattern value; return likeAny first rest p)
      (likeAny first rest (patternOf value)) :=
  builds_bind (builds_addPattern value) fun _ => builds_pure fun _ h => bind_likeAny h.2 first rest

/-- The values of a filter, one by one. -/
theorem builds_orLike (value : String) (values : List String) (first : Column)
    (rest : List Column) :
    Builds Cond.bind (orLike value values first rest) (orLikeMeant first rest value values) :=
  builds_bind (builds_likeAny first rest value) fun _ =>
    builds_bind (builds_mapM fun value _ => builds_likeAny first rest value) fun _ =>
      builds_pure fun _ h => bind_anyOf h.1.2 h.2

/-- A filter is built when it has a value. -/
theorem builds_filterClause {values : List String}
    {build : String → List String → Building (Cond ℕ)} {meant : String → List String → Cond Value}
    (h : ∀ value values, Builds Cond.bind (build value values) (meant value values)) :
    Builds bindAll (filterClause values build) (filterMeant values meant) := by
  cases values with
  | nil => exact builds_pure fun _ _ => rfl
  | cons value values =>
      refine builds_bind (h value values) fun condition => builds_pure fun bound hknown => ?_
      exact bindAll_cons_eq_some.mpr ⟨_, [], hknown.2, rfl, rfl⟩

/-- A clause is built when its value is there. -/
theorem builds_optionClause {α : Type} {value : Option α} {build : α → Building (Cond ℕ)}
    (meant : α → Cond Value) (h : ∀ a, Builds Cond.bind (build a) (meant a)) :
    Builds bindAll (optionClause value build) (value.toList.map meant) := by
  cases value with
  | none => exact builds_pure fun _ _ => rfl
  | some a =>
      refine builds_bind (h a) fun condition => builds_pure fun bound hknown => ?_
      exact bindAll_cons_eq_some.mpr ⟨_, [], hknown.2, rfl, rfl⟩

/-- A value that is bound, in a condition. -/
theorem builds_condition {condition : ℕ → Cond ℕ} (value : Value) {meant : Cond Value}
    (h : ∀ (bound : ℕ → Option Value) p, bound p = some value →
      (condition p).bind bound = some meant) :
    Builds Cond.bind (do let p ← add value; return condition p : Building (Cond ℕ)) meant :=
  builds_bind (builds_add value) fun p => builds_pure fun bound hknown => h bound p hknown.2

/-- The folders of a search are bound. -/
theorem builds_folderClause (folder : String) (folders : List String) :
    Builds Cond.bind (folderClause folder folders) (folderMeant folder folders) := by
  have hone : ∀ folder : String, Builds Cond.bind
      (do let p ← add (.text folder); return folderCondition p : Building (Cond ℕ))
      (folderCondition (.text folder)) := fun folder =>
    builds_condition (.text folder) fun bound p h => bind_folderCondition h
  refine builds_bind (hone folder) fun _ =>
    builds_bind (builds_mapM fun folder _ => hone folder) fun _ => builds_pure fun bound h => ?_
  rw [Cond.bind, Cond.bind, bind_anyOf h.1.2 h.2]
  rfl

/-- Placeholders in frames, one by one. -/
theorem mapM_frame {β γ : Type} {bound : ℕ → Option Value} {read : γ → Option β} {frame : ℕ → γ}
    {meant : Value → β} (h : ∀ p r, bound p = some r → read (frame p) = some (meant r))
    {ps : List ℕ} {rs : List Value} (hs : ps.mapM bound = some rs) :
    (ps.map frame).mapM read = some (rs.map meant) := by
  induction ps generalizing rs with
  | nil =>
      cases hs
      rfl
  | cons p ps ih =>
      rw [List.mapM_cons] at hs
      obtain ⟨r, hr, hs⟩ := Option.bind_eq_some_iff.mp hs
      obtain ⟨rs', hrs', hs⟩ := Option.bind_eq_some_iff.mp hs
      cases hs
      rw [List.map_cons, List.mapM_cons, h p r hr, ih hrs']
      rfl

/-- The label of a search is bound. -/
theorem builds_labelClause (label : String) :
    Builds Cond.bind (do
      let p ← add (.text label)
      return .exists_ .email_labels (.and (.eq (.column .labelEmailId) (.column (.e .id)))
        (.eq (.column .labelId) (.param p))) : Building (Cond ℕ)) (labelMeant label) :=
  builds_condition (.text label) fun bound p h => by
    simp [labelMeant, h]

/-- **The fragments are the ones that are meant.** -/
theorem builds_fragments (search : NormalizedSearch) :
    Builds Fragments.bind (fragments search) (fragmentsMeant search) := by
  refine builds_bind (builds_mapM fun needle _ => builds_addPattern needle) fun needles => ?_
  refine builds_bind (builds_filterClause fun v vs => builds_orLike v vs (.e .sender) [])
    fun «from» => ?_
  refine builds_bind (builds_filterClause fun v vs =>
    builds_orLike v vs (.e .recipient) [.e .cc, .e .bcc]) fun «to» => ?_
  refine builds_bind (builds_filterClause fun v vs => builds_orLike v vs (.e .subject) [])
    fun subject => ?_
  have hfilename : ∀ v vs, Builds Cond.bind (do
      let clause ← orLike v vs .attachmentFilename []
      return someAttachment [clause]) (someAttachment [orLikeMeant .attachmentFilename [] v vs]) :=
    fun v vs => builds_bind (builds_orLike v vs .attachmentFilename []) fun clause =>
      builds_pure fun bound h => bind_someAttachment
        (bindAll_cons_eq_some.mpr ⟨_, [], h.2, rfl, rfl⟩)
  refine builds_bind (builds_filterClause hfilename) fun filename => ?_
  refine builds_bind (builds_filterClause builds_folderClause) fun folder => ?_
  refine builds_bind (builds_optionClause labelMeant builds_labelClause) fun label => ?_
  refine builds_bind (builds_optionClause (fun date => .ge (.column (.e .date))
    (.param (.text date))) fun date => builds_condition (.text date) fun bound p h => by
      simp [h]) fun start => ?_
  refine builds_bind (builds_optionClause (fun date => .lt (.column (.e .date))
    (.param (.text date))) fun date => builds_condition (.text date) fun bound p h => by
      simp [h]) fun stop => ?_
  refine builds_bind (builds_optionClause (fun isRead => .flag .read (flagValue isRead))
    fun isRead => builds_condition (flagValue isRead) fun bound p h => by
      rw [Cond.bind, h]
      rfl) fun read => ?_
  refine builds_bind (builds_optionClause (fun isStarred => .flag .starred (flagValue isStarred))
    fun isStarred => builds_condition (flagValue isStarred) fun bound p h => by
      rw [Cond.bind, h]
      rfl) fun starred => builds_pure fun bound hknown => ?_
  obtain ⟨⟨⟨⟨⟨⟨⟨⟨⟨⟨⟨-, hneedles⟩, hfrom⟩, hto⟩, hsubject⟩, hfilename⟩, hfolder⟩, hlabel⟩, hstart⟩,
    hstop⟩, hread⟩, hstarred⟩ := hknown
  have hconditions : bindAll bound (needles.map needleCondition) =
      some ((search.needles.map patternOf).map needleCondition) :=
    mapM_frame (fun p r h => bind_needleCondition h) hneedles
  have hrelevance : ((needles.map needleRelevance).mapM fun part => part.mapM fun weighted =>
      (weighted.1.bind bound).map fun condition => (condition, weighted.2)) =
      some ((search.needles.map patternOf).map needleRelevance) :=
    mapM_frame (fun p r h => bind_needleRelevance h) hneedles
  have hattached : bindAll bound (if search.hasAttachment then [someAttachment []] else []) =
      some (if search.hasAttachment then [someAttachment []] else []) := by
    cases search.hasAttachment <;> rfl
  rw [List.map_map] at hconditions hrelevance
  have hwhere := bind_allOf (c := .ne (.column (.e .folder_id)) (.literal RETIRED_OUTBOUND)) rfl
    (bindAll_append (bindAll_append (bindAll_append (bindAll_append (bindAll_append
      (bindAll_append (bindAll_append (bindAll_append (bindAll_append (bindAll_append
        (bindAll_append hconditions hfrom) hto) hsubject) hfilename) hfolder) hlabel) hstart) hstop)
        hread) hstarred) hattached)
  rw [Fragments.bind, hwhere, hrelevance]
  rfl

/-- The attachment that is shown is found by its pattern. -/
theorem builds_matchedAttachment (value : String) :
    Builds Cond.bind (do let p ← addPattern value; return Cond.like .attachmentFilename p)
      (.like .attachmentFilename (patternOf value)) :=
  builds_bind (builds_addPattern value) fun p => builds_pure fun bound h => by
    rw [Cond.bind, h.2]
    rfl

/-- **The first statement is the one that is meant.** -/
theorem builds_dataStatement (search : NormalizedSearch) (order : Option (String × Bool))
    (limit offset : JsNumber) :
    Builds DataStatement.bind (dataStatement search order limit offset)
      (dataMeant search order limit offset) := by
  refine builds_bind (builds_fragments search) fun data => ?_
  refine builds_bind (builds_mapM fun needle _ => builds_add (Value.text needle)) fun snippet => ?_
  refine builds_bind (builds_mapM fun value _ => builds_matchedAttachment value) fun matched => ?_
  refine builds_bind (builds_add (Value.number limit)) fun _ => ?_
  refine builds_bind (builds_add (Value.number offset)) fun _ => builds_pure fun bound hknown => ?_
  obtain ⟨⟨⟨⟨⟨-, hdata⟩, hsnippet⟩, hmatched⟩, hlimit⟩, hoffset⟩ := hknown
  rw [DataStatement.bind, hdata]
  simp only [Option.bind_eq_bind, Option.bind_some]
  rw [show snippet.mapM bound = _ from hsnippet, Option.bind_some, hmatched, Option.bind_some,
    hlimit, Option.bind_some, hoffset]
  rfl

/-! ### The plan -/

variable {toLowerCase : String → String} {host : HostRuntime} {options : MailSearchOptions}
  {plan : MailSearchPlan}

/-- What a plan was made from. -/
theorem buildMailSearchPlan_eq_ok (h : buildMailSearchPlan toLowerCase host options = .ok plan) :
    ∃ search count, mergeParsed toLowerCase host options = .ok search ∧
      dataStatement search (explicitSort options) (some (limitOf options)) (offsetOf options) [] =
        .ok (plan.dataSql, plan.dataParams) ∧
      fragments search [] = .ok (count, plan.countParams) ∧ plan.countSql = count.where ∧
      plan.dataParams.length ≤ 100 ∧ plan.countParams.length ≤ 100 := by
  obtain ⟨search, hsearch, h⟩ := bind_eq_ok.mp h
  obtain ⟨⟨dataSql, dataParams⟩, hdata, h⟩ := bind_eq_ok.mp h
  obtain ⟨⟨count, countParams⟩, hcount, h⟩ := bind_eq_ok.mp h
  obtain ⟨_, hlength, h⟩ := bind_eq_ok.mp h
  obtain rfl := pure_eq_ok.mp h
  have hlength := require_eq_ok.mp hlength
  simp only [Bool.not_eq_true', Bool.or_eq_false_iff, decide_eq_false_iff_not, not_lt] at hlength
  exact ⟨search, count, hsearch, hdata, hcount, rfl, hlength.1, hlength.2⟩

section

variable (hsearch : mergeParsed toLowerCase host options = .ok search)
  (h : buildMailSearchPlan toLowerCase host options = .ok plan)
include hsearch h

/-- **The statement for a page, with its parameters in place.** -/
theorem dataSql_bound :
    plan.dataSql.bind (valueAt plan.dataParams) = some (dataMeant search (explicitSort options)
      (some (limitOf options)) (offsetOf options)) := by
  obtain ⟨search', count, hsearch', hdata, -⟩ := buildMailSearchPlan_eq_ok h
  obtain rfl := Except.ok.inj (hsearch'.symm.trans hsearch)
  exact (builds_dataStatement search' _ _ _).run hdata

/-- **The statement for the number, with its parameters in place.** -/
theorem countSql_bound :
    plan.countSql.bind (valueAt plan.countParams) = some (fragmentsMeant search).where := by
  obtain ⟨search', count, hsearch', -, hcount, hwhere, -⟩ := buildMailSearchPlan_eq_ok h
  obtain rfl := Except.ok.inj (hsearch'.symm.trans hsearch)
  have hbound := (builds_fragments search').run hcount
  obtain ⟨condition, hcondition, hbound⟩ := Option.bind_eq_some_iff.mp hbound
  obtain ⟨relevance, -, hbound⟩ := Option.bind_eq_some_iff.mp hbound
  rw [hwhere, hcondition, ← Option.some.inj hbound]

end

end MailPortal.Search
