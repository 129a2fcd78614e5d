import NekoBox.Config.Chain
import NekoBox.Config.Routing

/-!
# The tags of a test configuration

`BuildTestConfig` (`ConfigBuilder.cpp`, lines 602–751) puts the outbounds of many
profiles into one configuration. The outbound of each that has the tag `proxy` is
renamed to `proxy2`, `proxy3`, … after the number of the profile in the batch, and
`tag2entID` leads from the new tag back to the profile. A profile with a full
configuration gets one of its own.

Of the configurations only the tags are kept here, each with the profile it comes from.

* `mapped_buildTestConfig`: `tag2entID` leads to the profile whose outbound has the tag.
-/

namespace NekoBox.Config

/-- What `BuildTestConfig` reads of a profile. -/
structure TestItem where
  id : ℤ
  /-- It has a bean and is not of the type `extracore`. -/
  testable : Bool
  /-- `IsValid` -/
  valid : Bool
  /-- `custom` with the core `internal-full` -/
  full : Bool
  /-- The tags in `outbounds` and in `endpoints` of what `BuildConfig` gives, unless
      that is an error -/
  built : Option (List String × List String)
  /-- The tag of the default outbound of a full configuration -/
  defaultTag : String

/-- The outbounds and endpoints of a configuration, each with its tag and the profile it
    comes from. -/
abbrev TaggedOutbounds := List (String × Option ℤ)

/-- `BuildTestConfigResult` -/
structure TestConfig where
  outbounds : TaggedOutbounds
  outboundTags : List String
  /-- The entries of the map; the first with a key counts. -/
  tag2entID : List (String × ℤ)
  fullConfigs : List (ℤ × String)
  /-- The profiles that get the latency −1 (line 626) -/
  invalid : List ℤ
  /-- There is an `error`. -/
  failed : Bool

namespace TestConfig

/-- One turn of the loop over the outbounds of a profile (lines 708–729). -/
def addOutbound (index : ℕ) (id : ℤ) (results : TestConfig) (tag : String) : TestConfig :=
  if tag = "direct" ∨ tag = "block" ∨ tag = "dns-out" ∨ startsWith "rout" tag then results
  else if tag = "proxy" then
    let tag := if index > 1 then tag ++ number index else tag
    { results with
      outbounds := results.outbounds ++ [(tag, some id)]
      outboundTags := results.outboundTags ++ [tag]
      tag2entID := (tag, id) :: results.tag2entID }
  else { results with outbounds := results.outbounds ++ [(tag, some id)] }

/-- The loop over the profiles (lines 612–730). -/
def addItems (results : TestConfig) : ℕ → List TestItem → TestConfig
  | _, [] => results
  | index, item :: items =>
    if !item.testable then results.addItems index items
    else if !item.valid then
      { results with invalid := results.invalid ++ [item.id] }.addItems index items
    else
      match item.built with
      | none => { results with failed := true }
      | some (outbounds, endpoints) =>
        if item.full then
          { results with fullConfigs := (item.id, item.defaultTag) :: results.fullConfigs }.addItems
            (index + 1) items
        else if outbounds = [] then { results with failed := true }
        else
          ((outbounds ++ endpoints).foldl (addOutbound (index + 1) item.id) results).addItems
            (index + 1) items

end TestConfig

/-- `BuildTestConfig` -/
def buildTestConfig (profiles : List TestItem) : TestConfig :=
  TestConfig.addItems ⟨[("direct", none)], [], [], [], [], false⟩ 0 profiles

namespace TestConfig

/-- Each entry of `tag2entID` belongs to an outbound of the profile. -/
def Mapped (results : TestConfig) : Prop :=
  ∀ tag id, (tag, id) ∈ results.tag2entID → (tag, some id) ∈ results.outbounds

variable {results : TestConfig}

theorem Mapped.addOutbound (h : results.Mapped) (index : ℕ) (id : ℤ) (tag : String) :
    (results.addOutbound index id tag).Mapped := by
  unfold TestConfig.addOutbound
  split
  · exact h
  · split
    · extract_lets newTag
      intro tag' id' hmem
      rcases List.mem_cons.mp hmem with heq | hmem
      · cases heq
        exact List.mem_append_right _ List.mem_cons_self
      · exact List.mem_append_left _ (h tag' id' hmem)
    · intro tag' id' hmem
      exact List.mem_append_left _ (h tag' id' hmem)

theorem Mapped.addOutbounds (h : results.Mapped) (index : ℕ) (id : ℤ) (tags : List String) :
    (tags.foldl (TestConfig.addOutbound index id) results).Mapped := by
  induction tags generalizing results with
  | nil => exact h
  | cons tag tags ih => exact ih (h.addOutbound index id tag)

theorem Mapped.addItems (h : results.Mapped) (index : ℕ) (items : List TestItem) :
    (results.addItems index items).Mapped := by
  induction items generalizing results index with
  | nil => exact h
  | cons item items ih =>
    unfold TestConfig.addItems
    split
    · exact ih h index
    · split
      · apply ih
        exact h
      · split
        · exact h
        · split
          · apply ih
            exact h
          · split
            · exact h
            · exact ih (h.addOutbounds _ _ _) (index + 1)

/-- **Tags.** -/
theorem mapped_buildTestConfig (profiles : List TestItem) : (buildTestConfig profiles).Mapped := by
  apply Mapped.addItems
  nofun

theorem mem_of_lookup {α β : Type*} [BEq α] [LawfulBEq α] {l : List (α × β)} {k : α} {v : β}
    (h : l.lookup k = some v) : (k, v) ∈ l := by
  obtain ⟨before, after, rfl, -⟩ := List.lookup_eq_some_iff.mp h
  exact List.mem_append_right _ List.mem_cons_self

/-- What the map says of a tag holds for the outbound with the tag, if there is only
    one. -/
theorem Mapped.lookup_outbounds (h : results.Mapped)
    (hdistinct : (results.outbounds.map Prod.fst).Nodup) {tag : String} {id : ℤ}
    (hlookup : results.tag2entID.lookup tag = some id) :
    results.outbounds.lookup tag = some (some id) := by
  have hmem : (tag, some id) ∈ results.outbounds :=
    h tag id (mem_of_lookup hlookup)
  obtain ⟨before, after, hsplit⟩ := List.append_of_mem hmem
  rw [hsplit] at hdistinct ⊢
  rw [List.map_append, List.map_cons, List.nodup_middle, List.nodup_cons, List.mem_append] at hdistinct
  refine List.lookup_eq_some_iff.mpr ⟨before, after, rfl, fun e he => ?_⟩
  have hne : tag ≠ e.1 := by
    rintro rfl
    exact hdistinct.1 (.inl (List.mem_map.mpr ⟨e, he, rfl⟩))
  simpa using hne

end TestConfig

end NekoBox.Config
