import SingBox.Foundation.Run

/-!
# Remote rule-sets

A remote rule-set is fetched from its URL at the start, unless the cache file has an entry for its
tag that was not downloaded from another URL, and again in every update round. A request carries the
ETag of the last answer that had one; the answer 304 says that the content with this ETag is still
current. Content and ETag are kept in memory and, with a hash of the URL, in the cache file. They
are updated separately: an answer without an ETag leaves the last one in place, and the answer 304
renews the hash of whatever entry the cache file has.

An ETag determines the content. The hash of a URL determines the URL.
-/

namespace SingBox.RemoteRuleSet

open Foundation List

variable {URL Etag Content : Type*}

/-- What a URL serves: the content of an ETag, or content without one. -/
inductive Resource (Etag Content : Type*)
  | tagged (etag : Etag)
  | plain (content : Content)
deriving DecidableEq, Repr

/-- The content of a resource; `contentOf` is the content that an ETag determines. -/
def Resource.content (contentOf : Etag → Content) : Resource Etag Content → Content
  | .tagged etag => contentOf etag
  | .plain content => content

/-- The `Etag` header. -/
def Resource.etag : Resource Etag Content → Option Etag
  | .tagged etag => some etag
  | .plain _ => none

/-- `SavedBinary`. The hash is that of a URL, or missing in old entries. -/
structure SavedBinary (URL Etag Content : Type*) where
  content : Content
  lastEtag : Option Etag
  urlHash : Option URL
deriving DecidableEq, Repr

/-- A rule-set that was started. -/
structure RuleSet (URL Etag Content : Type*) where
  url : URL
  cacheFile : Bool
  /-- `lastUpdated` is not zero. -/
  updated : Bool
  lastEtag : Option Etag
  rules : Option Content
deriving DecidableEq, Repr

/-- The server, the cache file and the rule-set. -/
structure State (URL Etag Content : Type*) where
  resource : URL → Resource Etag Content
  /-- What each URL has served. -/
  served : URL → List Content
  saved : Option (SavedBinary URL Etag Content)
  ruleSet : Option (RuleSet URL Etag Content)
  /-- For every fetch that returned success, the active content and that of the URL. -/
  fetched : List (Option Content × Content)
  /-- The URL and the content of every entry with a hash that was restored. -/
  restored : List (URL × Content)

/-- How a request ends, as far as it does not depend on the server. -/
structure Outcome where
  /-- The server is reached and answers 200 or 304, and the body can be read. -/
  responds : Bool
  /-- The content is accepted by `loadBytes`. -/
  loads : Bool
  /-- The entry can be saved to the cache file. -/
  saves : Bool
deriving DecidableEq, Repr

/-- What can happen next. -/
inductive Event (URL Etag Content : Type*)
  | serve (url : URL) (resource : Resource Etag Content)
  /-- The program is started anew. `restores`: `loadBytes` accepts the entry of the cache file;
  `initial`: the content of the initial file, if there is one and it is accepted. -/
  | restart (url : URL) (cacheFile restores : Bool) (initial : Option Content) (outcome : Outcome)
  | updateOnce (outcome : Outcome)
deriving DecidableEq, Repr

section

variable (contentOf : Etag → Content)

/-- The server answers 304. -/
def NotModified (s : State URL Etag Content) (r : RuleSet URL Etag Content) : Prop :=
  r.lastEtag ≠ none ∧ (s.resource r.url).etag = r.lastEtag

/-- The answer 304. -/
def fetchNotModified (s : State URL Etag Content) (r : RuleSet URL Etag Content) (saves : Bool) :
    State URL Etag Content :=
  { s with
    saved :=
      if r.cacheFile && saves then s.saved.map fun saved => { saved with urlHash := some r.url }
      else s.saved
    ruleSet := some { r with updated := true }
    fetched := s.fetched ++ [(r.rules, (s.resource r.url).content contentOf)] }

/-- The answer 200, with content that is accepted. -/
def fetchOK (s : State URL Etag Content) (r : RuleSet URL Etag Content) (saves : Bool) :
    State URL Etag Content :=
  let content := (s.resource r.url).content contentOf
  let lastEtag := (s.resource r.url).etag.or r.lastEtag
  { s with
    saved := if r.cacheFile && saves then some ⟨content, lastEtag, some r.url⟩ else s.saved
    ruleSet := some { r with updated := true, lastEtag := lastEtag, rules := some content }
    fetched := s.fetched ++ [(some content, content)] }

variable [DecidableEq Etag]

instance (s : State URL Etag Content) (r : RuleSet URL Etag Content) :
    Decidable (NotModified s r) :=
  inferInstanceAs (Decidable (_ ∧ _))

/-- `fetch` of the rule-set `r`; nothing if it returns an error, which changes nothing. -/
def fetch (s : State URL Etag Content) (r : RuleSet URL Etag Content) (outcome : Outcome) :
    Option (State URL Etag Content) :=
  if outcome.responds then
    if NotModified s r then some (fetchNotModified contentOf s r outcome.saves)
    else if outcome.loads then some (fetchOK contentOf s r outcome.saves)
    else none
  else none

variable [DecidableEq URL]

/-- The entry of the cache file is restored, unless it was downloaded from another URL. -/
def restore (s : State URL Etag Content) (url : URL) (cacheFile restores : Bool) :
    Option (SavedBinary URL Etag Content) :=
  if cacheFile && restores then
    s.saved.filter fun saved => saved.urlHash = none ∨ saved.urlHash = some url
  else none

def startContext (s : State URL Etag Content) (url : URL) (cacheFile restores : Bool)
    (initial : Option Content) (outcome : Outcome) : State URL Etag Content :=
  match restore s url cacheFile restores with
  | some saved =>
    { s with
      ruleSet := some ⟨url, cacheFile, true, saved.lastEtag, some saved.content⟩
      restored :=
        if saved.urlHash = none then s.restored else s.restored ++ [(url, saved.content)] }
  | none =>
    match initial with
    | some content => { s with ruleSet := some ⟨url, cacheFile, false, none, some content⟩ }
    | none =>
      match fetch contentOf s ⟨url, cacheFile, false, none, none⟩ outcome with
      | some s' => s'
      | none => { s with ruleSet := none }

/-- One event. -/
def step (s : State URL Etag Content) : Event URL Etag Content → State URL Etag Content
  | .serve url resource =>
    { s with
      resource := fun u => if u = url then resource else s.resource u
      served := fun u =>
        if u = url then s.served u ++ [resource.content contentOf] else s.served u }
  | .restart url cacheFile restores initial outcome =>
    startContext contentOf s url cacheFile restores initial outcome
  | .updateOnce outcome =>
    match s.ruleSet with
    | none => s
    | some r => (fetch contentOf s r outcome).getD s

end

/-! ### The property and the condition -/

/-- After every fetch that returned success the active rules were those of the content that the URL
served, and what was restored from an entry with a hash had been served by the URL. -/
structure FollowsURL (s : State URL Etag Content) : Prop where
  fetched : ∀ f ∈ s.fetched, f.1 = some f.2
  restored : ∀ r ∈ s.restored, r.2 ∈ s.served r.1

/-- In an update round no content without an ETag is accepted while an ETag is held, and the answer
304 finds no entry in the cache file but one of the same URL or one of the active content. -/
def Matched (s : State URL Etag Content) : Event URL Etag Content → Prop
  | .updateOnce outcome =>
    ∀ r ∈ s.ruleSet, outcome.responds = true →
      ((s.resource r.url).etag = none → outcome.loads = true → r.lastEtag = none) ∧
      (NotModified s r → ∀ saved ∈ s.saved,
        saved.urlHash = some r.url ∨ r.rules = some saved.content)
  | _ => True

/-- A state from which runs begin: nothing is running, and the cache file is empty or has an entry
of an older version, without a hash, whose ETag is that of its content. -/
structure Initial (contentOf : Etag → Content) (s : State URL Etag Content) : Prop where
  served : ∀ url, (s.resource url).content contentOf ∈ s.served url
  saved : ∀ saved ∈ s.saved, saved.urlHash = none ∧
    ∀ etag ∈ saved.lastEtag, saved.content = contentOf etag
  ruleSet : s.ruleSet = none
  fetched : s.fetched = []
  restored : s.restored = []

/-! ### The invariant -/

/-- Content is held, in memory and in the cache file, with an ETag of its own or with none, and
under a hash only of a URL that has served it. -/
structure Paired (contentOf : Etag → Content) (s : State URL Etag Content) : Prop where
  served : ∀ url, (s.resource url).content contentOf ∈ s.served url
  ruleSet : ∀ r ∈ s.ruleSet, ∀ etag ∈ r.lastEtag, r.rules = some (contentOf etag)
  saved : ∀ saved ∈ s.saved, (∀ etag ∈ saved.lastEtag, saved.content = contentOf etag) ∧
    ∀ url ∈ saved.urlHash, saved.content ∈ s.served url
  follows : FollowsURL s

variable {contentOf : Etag → Content} {s : State URL Etag Content} {r : RuleSet URL Etag Content}

theorem Initial.paired (h : Initial contentOf s) : Paired contentOf s where
  served := h.served
  ruleSet r hr := by
    rw [h.ruleSet] at hr
    cases hr
  saved saved hs := by
    obtain ⟨hh, he⟩ := h.saved saved hs
    refine ⟨he, fun url hu => ?_⟩
    rw [hh] at hu
    cases hu
  follows := by
    refine ⟨fun f hf => ?_, fun r hr => ?_⟩
    · rw [h.fetched] at hf
      cases hf
    · rw [h.restored] at hr
      cases hr

theorem content_of_etag (resource : Resource Etag Content) {lastEtag : Option Etag}
    (hp : resource.etag = none → lastEtag = none) :
    ∀ etag ∈ resource.etag.or lastEtag, resource.content contentOf = contentOf etag := by
  intro etag he
  cases resource with
  | tagged e =>
    cases he
    rfl
  | plain content =>
    rw [hp rfl] at he
    cases he

theorem Paired.fetchOK (h : Paired contentOf s) (saves : Bool)
    (hp : (s.resource r.url).etag = none → r.lastEtag = none) :
    Paired contentOf (fetchOK contentOf s r saves) where
  served := h.served
  ruleSet r' hr' etag he := by
    cases hr'
    exact congrArg some (content_of_etag _ hp etag he)
  saved saved hs := by
    simp only [RemoteRuleSet.fetchOK] at hs
    split_ifs at hs
    · cases hs
      refine ⟨content_of_etag _ hp, fun url hu => ?_⟩
      cases hu
      exact h.served r.url
    · exact h.saved saved hs
  follows := by
    refine ⟨fun f hf => ?_, h.follows.restored⟩
    rcases mem_append.mp hf with ho | hn
    · exact h.follows.fetched f ho
    · rw [mem_singleton.mp hn]

theorem Paired.fetchNotModified (h : Paired contentOf s) (hr : r ∈ s.ruleSet) (saves : Bool)
    (hmod : NotModified s r)
    (hm : ∀ saved ∈ s.saved, saved.urlHash = some r.url ∨ r.rules = some saved.content) :
    Paired contentOf (fetchNotModified contentOf s r saves) := by
  have ha : r.rules = some ((s.resource r.url).content contentOf) := by
    obtain ⟨hhe, hs⟩ := hmod
    obtain ⟨etag, he⟩ := Option.ne_none_iff_exists'.mp hhe
    rw [h.ruleSet r hr etag he]
    cases hre : s.resource r.url with
    | tagged e =>
      rw [hre, he] at hs
      cases hs
      rfl
    | plain content =>
      rw [hre, he] at hs
      cases hs
  refine ⟨h.served, fun r' hr' => ?_, fun saved hsa => ?_, fun f hf => ?_, h.follows.restored⟩
  · cases hr'
    exact h.ruleSet r hr
  · simp only [RemoteRuleSet.fetchNotModified] at hsa
    split_ifs at hsa
    · obtain ⟨old, ho, rfl⟩ := Option.map_eq_some_iff.mp hsa
      obtain ⟨he, hse⟩ := h.saved old ho
      refine ⟨he, fun url hu => ?_⟩
      cases hu
      rcases hm old ho with hh | hs
      · exact hse r.url hh
      · rw [ha] at hs
        rw [← Option.some.inj hs]
        exact h.served r.url
    · exact h.saved saved hsa
  · rcases mem_append.mp hf with ho | hn
    · exact h.follows.fetched f ho
    · rw [mem_singleton.mp hn]
      exact ha

variable [DecidableEq Etag]

theorem Paired.fetch_start (h : Paired contentOf s) {outcome : Outcome}
    {s' : State URL Etag Content} (he : r.lastEtag = none)
    (hf : fetch contentOf s r outcome = some s') : Paired contentOf s' := by
  unfold fetch at hf
  split_ifs at hf with _ hm
  · exact absurd he hm.1
  · cases hf
    exact h.fetchOK outcome.saves fun _ => he

variable [DecidableEq URL]

/-- A start restores what was served by the URL, or an entry of an older version. -/
theorem Paired.startContext (h : Paired contentOf s) (url : URL) (cacheFile restores : Bool)
    (initial : Option Content) (outcome : Outcome) :
    Paired contentOf (startContext contentOf s url cacheFile restores initial outcome) := by
  unfold RemoteRuleSet.startContext
  cases hrst : restore s url cacheFile restores with
  | some saved =>
    obtain ⟨hsa, hh⟩ : saved ∈ s.saved ∧
        (saved.urlHash = none ∨ saved.urlHash = some url) := by
      unfold restore at hrst
      split_ifs at hrst
      simpa [Option.filter_eq_some_iff] using hrst
    obtain ⟨het, hs⟩ := h.saved saved hsa
    refine ⟨h.served, fun r hr etag he => ?_, h.saved, h.follows.fetched, fun p hp => ?_⟩
    · cases hr
      exact congrArg some (het etag he)
    · dsimp only at hp
      split_ifs at hp with hn
      · exact h.follows.restored p hp
      · rcases mem_append.mp hp with ho | hnew
        · exact h.follows.restored p ho
        · rw [mem_singleton.mp hnew]
          exact hs url (hh.resolve_left hn)
  | none =>
    cases initial with
    | some content =>
      refine ⟨h.served, fun r hr etag he => ?_, h.saved, h.follows.fetched, h.follows.restored⟩
      cases hr
      cases he
    | none =>
      dsimp only
      split
      · rename_i s' hf
        exact h.fetch_start rfl hf
      · exact ⟨h.served, nofun, h.saved, h.follows.fetched, h.follows.restored⟩

theorem Paired.step (h : Paired contentOf s) {e : Event URL Etag Content} (hm : Matched s e) :
    Paired contentOf (step contentOf s e) := by
  cases e with
  | serve url resource =>
    have hmo : ∀ u, ∀ content ∈ s.served u,
        content ∈ (RemoteRuleSet.step contentOf s (.serve url resource)).served u := by
      intro u content hc
      simp only [RemoteRuleSet.step]
      split_ifs
      · exact mem_append_left _ hc
      · exact hc
    refine ⟨fun u => ?_, h.ruleSet, fun saved hsa => ?_, h.follows.fetched,
      fun p hp => hmo p.1 p.2 (h.follows.restored p hp)⟩
    · by_cases hu : u = url
      · simp [RemoteRuleSet.step, hu]
      · simp only [RemoteRuleSet.step, if_neg hu]
        exact h.served u
    · obtain ⟨he, hs⟩ := h.saved saved hsa
      exact ⟨he, fun u hu => hmo u saved.content (hs u hu)⟩
  | restart url cacheFile restores initial outcome =>
    exact h.startContext url cacheFile restores initial outcome
  | updateOnce outcome =>
    cases hr : s.ruleSet with
    | none => simpa only [RemoteRuleSet.step, hr] using h
    | some r =>
      simp only [RemoteRuleSet.step, hr, fetch]
      split_ifs with hre hmod hl
      · exact h.fetchNotModified hr outcome.saves hmod
          ((hm r hr hre).2 hmod)
      · exact h.fetchOK outcome.saves fun hpl => (hm r hr hre).1 hpl hl
      · exact h
      · exact h

/-! ### Runs -/

/-- In every run whose update rounds are matched the rule-set follows its URL. -/
theorem run_followsURL {contentOf : Etag → Content} {s₀ : State URL Etag Content}
    (hinitial : Initial contentOf s₀) (events : ℕ → Event URL Etag Content)
    (hmatched : ∀ n, Matched (run (step contentOf) s₀ events n) (events n)) (n : ℕ) :
    FollowsURL (run (step contentOf) s₀ events n) := by
  suffices hp : Paired contentOf (run (step contentOf) s₀ events n) from hp.follows
  induction n with
  | zero => exact hinitial.paired
  | succ n ih => exact ih.step (hmatched n)

instance (s : State URL Etag Content) [DecidableEq Content] (e : Event URL Etag Content) :
    Decidable (Matched s e) := by
  unfold Matched
  split
  · rename_i outcome
    cases s.ruleSet with
    | none => exact isTrue nofun
    | some r =>
      cases s.saved with
      | none => exact decidable_of_iff (outcome.responds = true →
          (s.resource r.url).etag = none → outcome.loads = true → r.lastEtag = none) (by simp)
      | some saved => exact decidable_of_iff (outcome.responds = true →
          ((s.resource r.url).etag = none → outcome.loads = true → r.lastEtag = none) ∧
          (NotModified s r → saved.urlHash = some r.url ∨ r.rules = some saved.content)) (by simp)
  · exact isTrue trivial

/-- A server on which every URL has content with the ETag `0`. The content of an ETag is its number
plus a hundred. -/
def freshState : State ℕ ℕ ℕ where
  resource _ := .tagged 0
  served _ := [100]
  saved := none
  ruleSet := none
  fetched := []
  restored := []

theorem initial_freshState : Initial (100 + ·) freshState :=
  ⟨fun _ => mem_singleton_self _, nofun, rfl, rfl, rfl⟩

/-- A request that succeeds, and whose content is saved. -/
def fine : Outcome := ⟨true, true, true⟩

/-- A fetch, an update that finds nothing new, one that finds new content, and a restart. -/
def fetchAndRestart : List (Event ℕ ℕ ℕ) :=
  [.restart 1 true true none fine, .updateOnce fine, .serve 1 (.tagged 5), .updateOnce fine,
    .restart 1 true true none fine]

theorem run_followsURL_example : FollowsURL (run (step (100 + ·)) freshState
      (fun n => fetchAndRestart.getD n (.serve 9 (.tagged 0))) 5) ∧ (run (step (100 + ·)) freshState
      (fun n => fetchAndRestart.getD n (.serve 9 (.tagged 0))) 5).fetched =
      [(some 100, 100), (some 100, 100), (some 105, 105)] ∧ (run (step (100 + ·)) freshState
      (fun n => fetchAndRestart.getD n (.serve 9 (.tagged 0))) 5).restored = [(1, 105)] := by
  refine ⟨run_followsURL initial_freshState _ ?_ 5, by decide +kernel, by decide +kernel⟩
  exact forall_getD _ _ (by decide +kernel) fun _ => trivial

/-- Content with an ETag, then content without one, then the first content again. -/
def etagKept : List (Event ℕ ℕ ℕ) :=
  [.restart 1 true true none fine, .serve 1 (.plain 7), .updateOnce fine, .serve 1 (.tagged 0),
    .updateOnce fine]

/-- The URL changes, the content of the new one is not saved, and the entry of the old one is
renewed by an update round that finds nothing new. -/
def hashRenewed : List (Event ℕ ℕ ℕ) :=
  [.serve 1 (.tagged 1), .restart 1 true true none fine,
    .restart 2 true true none ⟨true, true, false⟩, .updateOnce fine, .restart 2 true true none fine]

/-- The server has its first content, and the rules are those of the second; and a rule-set is
restored from content of another URL, under the hash of its own. -/
theorem not_followsURL : (¬ FollowsURL (run (step (100 + ·)) freshState
        (fun n => etagKept.getD n (.serve 9 (.tagged 0))) 5) ∧ (run (step (100 + ·)) freshState
        (fun n => etagKept.getD n (.serve 9 (.tagged 0))) 5).fetched =
        [(some 100, 100), (some 7, 7), (some 7, 100)]) ∧
    (¬ FollowsURL (run (step (100 + ·)) freshState
        (fun n => hashRenewed.getD n (.serve 9 (.tagged 0))) 5) ∧ (run (step (100 + ·)) freshState
        (fun n => hashRenewed.getD n (.serve 9 (.tagged 0))) 5).restored = [(2, 101)]) := by
  refine ⟨⟨fun hf => ?_, by decide +kernel⟩, fun hf => ?_, by decide +kernel⟩
  · exact absurd (hf.fetched (some 7, 100) (by decide +kernel)) (by decide)
  · exact absurd (hf.restored (2, 101) (by decide +kernel)) (by decide +kernel)

end SingBox.RemoteRuleSet
