import SingBox.Adapter.Startup

/-!
# The start of outbounds, endpoints and DNS servers

The configuration is checked for tags that are used twice among its outbounds and endpoints. The
outbound manager then starts its outbounds together with the endpoints. When it has no default
outbound it first adds one with the tag `direct`, after the check.
-/

namespace SingBox.Adapter

open List Component Function

/-- An outbound, endpoint or DNS server of the configuration, with what the component that is
created from it depends on. -/
structure Entry where
  tag : String
  dependencies : List String
deriving DecidableEq, Repr

/-- The component of an entry; an entry without a tag is named by its index. -/
def Entry.component (i : ℕ) (e : Entry) : Component String :=
  ⟨if e.tag = "" then toString i else e.tag, e.dependencies⟩

/-- The components of a list of entries. -/
def componentsOf (entries : List Entry) : List (Component String) :=
  entries.mapIdx Entry.component

/-- A loop of `checkOutbounds`, from the tags that were seen before it. -/
def checkTags (seen : List String) : List (Component String) → Except String (List String)
  | [] => .ok seen
  | c :: rest =>
    if c.tag ∈ seen then .error ("duplicate outbound/endpoint tag: " ++ c.tag)
    else checkTags (c.tag :: seen) rest

/-- The check of the configuration. -/
def checkOutbounds (outbounds endpoints : List Entry) : Except String Unit := do
  let seen ← checkTags [] (componentsOf outbounds)
  let _ ← checkTags seen (componentsOf endpoints)
  pure ()

/-- The default outbound that is added when there is none. -/
def directOutbound : Component String := ⟨"direct", []⟩

/-- `Start` at the initialize stage: the outbounds that it leaves. Without a default tag the first
outbound that was created is the default. -/
def initializeOutbounds (defaultTag : String) (outbounds endpoints : List (Component String)) :
    Except String (List (Component String)) :=
  if defaultTag = "" then
    if outbounds = [] then .ok (outbounds ++ [directOutbound]) else .ok outbounds
  else if defaultTag ∈ outbounds.map Component.tag then .ok outbounds
  else if defaultTag ∈ endpoints.map Component.tag then .ok outbounds
  else .error ("default outbound not found: " ++ defaultTag)

/-- The first component with a tag. -/
def findByTag (components : List (Component String)) (tag : String) : Option (Component String) :=
  components.find? (·.tag = tag)

/-- The map of the DNS servers by their tags. -/
def transportByTag (transports : List (Component String)) : String → Option (Component String) :=
  transports.foldl (fun m c => Function.update m c.tag (some c)) fun _ => none

/-- `startOutbounds` of the outbound manager. -/
def startOutbounds (fuel : ℕ) (outbounds : List (Component String)) :
    Option (StartOutcome String) :=
  startLoop (findByTag outbounds) outbounds fuel []

/-- `startTransports` of the DNS transport manager. -/
def startTransports (fuel : ℕ) (transports : List (Component String)) :
    Option (StartOutcome String) :=
  startLoop (transportByTag transports) transports fuel []

/-- The text of the error of an outcome; `kind` is `outbound` or `server`. -/
def StartOutcome.message (kind : String) : StartOutcome String → Option String
  | .circular tree problem =>
    some ("circular " ++ kind ++ " dependency: " ++ " -> ".intercalate tree ++ " -> " ++ problem)
  | .missing problem current =>
    some ("dependency[" ++ problem ++ "] not found for " ++ kind ++ "[" ++ current ++ "]")
  | _ => none

/-! ### Lookups -/

theorem lookupOk_findByTag (components : List (Component String)) :
    LookupOk (findByTag components) components where
  some h := ⟨mem_of_find?_eq_some h, by simpa using find?_some h⟩
  none h ht := by
    obtain ⟨c, hc, rfl⟩ := mem_map.mp ht
    simpa using find?_eq_none.mp h c hc

theorem lookupOk_transportByTag (transports : List (Component String)) :
    LookupOk (transportByTag transports) transports := by
  induction transports using reverseRecOn with
  | nil => exact ⟨fun h => by simp [transportByTag] at h, fun _ => by simp⟩
  | append_singleton transports c ih =>
    have hstep : transportByTag (transports ++ [c]) =
        update (transportByTag transports) c.tag (some c) := by
      rw [transportByTag, foldl_append]
      rfl
    rw [hstep]
    refine ⟨fun {tag c'} h => ?_, fun {tag} h => ?_⟩
    · by_cases ht : tag = c.tag
      · subst ht
        rw [update_self] at h
        obtain rfl := Option.some.inj h
        exact ⟨by simp, rfl⟩
      · rw [update_of_ne ht] at h
        exact (ih.some h).imp_left (mem_append_left _)
    · by_cases ht : tag = c.tag
      · subst ht
        rw [update_self] at h
        exact absurd h (by simp)
      · rw [update_of_ne ht] at h
        simpa [ht] using ih.none h

/-! ### Tags -/

theorem checkTags_eq_ok {seen seen' : List String} {components : List (Component String)}
    (hs : seen.Nodup) (h : checkTags seen components = .ok seen') :
    seen'.Nodup ∧ seen'.Perm (seen ++ components.map tag) := by
  induction components generalizing seen with
  | nil =>
    obtain rfl : seen = seen' := by simpa [checkTags] using h
    exact ⟨hs, by simp⟩
  | cons c rest ih =>
    rw [checkTags] at h
    split at h
    case isTrue => simp at h
    case isFalse hn =>
      obtain ⟨hnd, hp⟩ := ih (nodup_cons.mpr ⟨hn, hs⟩) h
      refine ⟨hnd, hp.trans ?_⟩
      rw [map_cons, cons_append]
      exact perm_middle.symm

theorem nodup_of_checkOutbounds {outbounds endpoints : List Entry}
    (h : checkOutbounds outbounds endpoints = .ok ()) :
    ((componentsOf outbounds ++ componentsOf endpoints).map tag).Nodup := by
  rw [checkOutbounds] at h
  cases hf : checkTags [] (componentsOf outbounds) with
  | error err => simp [hf, bind, Except.bind] at h
  | ok seen =>
    cases hs : checkTags seen (componentsOf endpoints) with
    | error err => simp [hf, hs, bind, Except.bind] at h
    | ok seen' =>
      obtain ⟨hnd, hp⟩ := checkTags_eq_ok nodup_nil hf
      obtain ⟨hnd', hp'⟩ := checkTags_eq_ok hnd hs
      rw [map_append]
      exact (hp'.trans (hp.append_right _)).nodup_iff.mp hnd'

/-- The tags are distinct unless the outbound that is added shares its tag with an endpoint. -/
theorem nodup_initialize_iff {defaultTag : String}
    {outbounds endpoints started : List (Component String)}
    (hnd : ((outbounds ++ endpoints).map tag).Nodup)
    (h : initializeOutbounds defaultTag outbounds endpoints = .ok started) :
    ((started ++ endpoints).map tag).Nodup ↔
      (defaultTag = "" → outbounds = [] → "direct" ∉ endpoints.map tag) := by
  rw [initializeOutbounds] at h
  by_cases hd : defaultTag = ""
  · by_cases he : outbounds = []
    · rw [if_pos hd, if_pos he] at h
      obtain rfl : outbounds ++ [directOutbound] = started := by simpa using h
      subst he
      rw [nil_append] at hnd
      rw [nil_append, singleton_append, map_cons, nodup_cons]
      simp only [hd, hnd, and_true, forall_const]
      rfl
    · rw [if_pos hd, if_neg he] at h
      obtain rfl : outbounds = started := by simpa using h
      exact iff_of_true hnd fun _ h => absurd h he
  · have hs : outbounds = started := by
      rw [if_neg hd] at h
      split_ifs at h <;> simpa using h
    subst hs
    exact iff_of_true hnd fun h => absurd h hd

/-- The start stage of the outbound manager, for every configuration that is accepted and every
list of dependencies, and the start of DNS servers with distinct tags: the former is correct exactly
unless the default outbound was added beside an endpoint with its tag and everything can be started;
the latter is always correct. -/
theorem start_correct_iff (defaultTag : String) (outbounds endpoints : List Entry)
    (started transports : List (Component String)) (fuel transportFuel : ℕ)
    (hcheck : checkOutbounds outbounds endpoints = .ok ())
    (hinit : initializeOutbounds defaultTag (componentsOf outbounds) (componentsOf endpoints) =
      .ok started)
    (hfuel : (started ++ componentsOf endpoints).length < fuel)
    (hnodup : (transports.map Component.tag).Nodup)
    (htransportFuel : transports.length < transportFuel) :
    (CorrectStart (started ++ componentsOf endpoints)
        (startOutbounds fuel (started ++ componentsOf endpoints)) ↔
      ((defaultTag = "" → componentsOf outbounds = [] →
          "direct" ∉ (componentsOf endpoints).map Component.tag) ∨
        ∃ c ∈ started ++ componentsOf endpoints,
          ¬ CanStart (started ++ componentsOf endpoints) c.tag)) ∧
      CorrectStart transports (startTransports transportFuel transports) := by
  constructor
  · rw [startOutbounds, startLoop_correct_iff (lookupOk_findByTag _) hfuel,
      nodup_initialize_iff (nodup_of_checkOutbounds hcheck) hinit]
  · rw [startTransports, startLoop_correct_iff (lookupOk_transportByTag _) htransportFuel]
    exact .inl hnodup

/-- Two outbounds, the first of which depends on the second. -/
theorem start_correct_iff_example :
    CorrectStart [⟨"a", ["b"]⟩, ⟨"b", []⟩] (startOutbounds 3 [⟨"a", ["b"]⟩, ⟨"b", []⟩]) := by
  refine (start_correct_iff "" [⟨"a", ["b"]⟩, ⟨"b", []⟩] [] [⟨"a", ["b"]⟩, ⟨"b", []⟩] [] 3 1
    (by decide) (by decide) (by decide) (by decide) (by decide)).1.mpr (.inl fun _ h => ?_)
  exact absurd h (by decide)

/-- An endpoint with the tag `direct` and no outbound: the check accepts the configuration, and the
start calls a method of a component that does not exist. -/
theorem start_panics :
    checkOutbounds [] [⟨"direct", []⟩] = .ok () ∧
      initializeOutbounds "" (componentsOf []) (componentsOf [⟨"direct", []⟩]) =
        .ok [directOutbound] ∧
      startOutbounds 3 ([directOutbound] ++ componentsOf [⟨"direct", []⟩]) = some .panicked := by
  decide

end SingBox.Adapter
