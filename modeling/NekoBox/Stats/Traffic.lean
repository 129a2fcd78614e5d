import NekoBox.Config.References
import NekoBox.Lib.LastWrite

/-!
# Traffic accounting

While a profile runs, `TrafficLooper::UpdateAll` (`TrafficLooper.cpp`, lines 59–115) asks the
core every second what each outbound has carried since, and adds it to the counters of the
profiles and to the totals for the proxy and for direct connections. Which counter an outbound
has, and whether it counts for the totals, is written into the profiles' `TrafficData` when a
config is built (`ConfigBuilder.cpp`, lines 832–838, 904–906, 1215–1219 and 1603), by any
build: a test writes there too, and nothing ever clears what a chain wrote.

A build is modelled by what it writes, in order; one that stops for another reason than an
outbound is one with fewer routes. Rates are left out, and so are configs that the user wrote
in full.

* `updateAll_totals`: one answer of the core, whatever items it finds twice;
* `totals_run`: over every run, what an answer adds to the totals in terms of the builds
  before it.
-/

namespace NekoBox.Stats

open NekoBox.Config NekoBox.Lib

/-! ## What a build writes -/

/-- A `TrafficData`: that of an entity, or the one a build makes for direct connections. -/
inductive Counter
  | entity (object : ℕ)
  | direct (build : ℕ)
deriving DecidableEq

structure TrafficData where
  id : ℤ := -1
  tag : String
  isChainTail : Bool := false
  ignoreForRate : Bool := false
  downlink : ℤ := 0
  uplink : ℤ := 0
  /-- not initialized by the constructor -/
  lastUpdate : ℤ

/-- `Reset` -/
def TrafficData.reset (d : TrafficData) : TrafficData := { d with downlink := 0, uplink := 0 }

abbrev Heap := Counter → TrafficData

inductive Write
  /-- the entity has an outbound of its own (lines 1216–1219) -/
  | outbound (object : ℕ) (id : ℤ) (tag : String)
  /-- another hop leads to it (line 906) -/
  | chainTail (object : ℕ)
  /-- it stands for a chain of several hops (lines 834–836) -/
  | chain (object : ℕ) (id : ℤ) (tag : String)

def Write.object : Write → ℕ
  | outbound object _ _ => object
  | chainTail object => object
  | chain object _ _ => object

def Write.set (d : TrafficData) : Write → TrafficData
  | outbound _ id tag => { d with id, tag }
  | chainTail _ => { d with isChainTail := true }
  | chain _ id tag => { d with id, tag, ignoreForRate := true }

def Write.apply (heap : Heap) (w : Write) : Heap :=
  Function.update heap (.entity w.object) (w.set (heap (.entity w.object)))

/-- A config to be built: of a profile, for a chain identifier, with the profiles that its
    rules and game services name. -/
structure Build where
  /-- the profiles, groups and settings at the time -/
  env : Environment
  ent : Profile
  forTest : Bool
  chainID : ℤ
  routes : List Profile
  /-- the entity that `GetProfile` returns -/
  object : ℤ → ℕ

namespace Build

variable (b : Build)

def fails (ent : Profile) : Bool := outboundError b.env b.forTest ent ≠ ""

/-- A turn of `BuildChainInternal`, of which a failed `BuildOutbound` does the first part. -/
def hopWrites (suffix : ℤ) (hop : Profile × ℕ) : List Write :=
  (if hop.2 > 0 then [.chainTail (b.object hop.1.id)] else []) ++
  if b.fails hop.1 then []
  else [.outbound (b.object hop.1.id) hop.1.id (tagOut b.chainID suffix hop.2 hop.1)]

def chainWrites (suffix : ℤ) (ents : List Profile) : List Write :=
  ents.zipIdx.flatMap (b.hopWrites suffix)

def chainItems (ents : List Profile) : List Counter :=
  (ents.filter fun ent => !b.fails ent).map fun ent => .entity (b.object ent.id)

/-- The end of `BuildChain` (lines 832–838). -/
def entWrites (ents : List Profile) : List Write :=
  if ents.length > 1 then [.chain (b.object b.ent.id) b.ent.id "proxy"] else []

def entItems (ents : List Profile) : List Counter :=
  if ents.length > 1 then [.entity (b.object b.ent.id)] else []

/-- The chains of rules and services, up to one that fails: what they write, and the items if
    none does. -/
def routeStats (suffix : ℕ) : List Profile → List Write × Option (List Counter)
  | [] => ([], some [])
  | ent :: rest =>
    let ents := resolveChainInternal b.env ent
    if ents.2 ≠ "" then ([], none)
    else if ents.1.any b.fails then (b.chainWrites suffix ents.1, none)
    else
      let more := routeStats (suffix + 1) rest
      (b.chainWrites suffix ents.1 ++ more.1, more.2.map (b.chainItems ents.1 ++ ·))

/-- What the build writes, and `outboundStats` if it succeeds. -/
def stats (direct : ℕ) : List Write × Option (List Counter) :=
  match chainList b.env b.ent with
  | .error _ => ([], none)
  | .ok ents =>
    let main := b.chainWrites (-1) ents ++ b.entWrites ents
    if ents.any b.fails then (main, none)
    else
      let routes := b.routeStats 0 b.routes
      (main ++ routes.1, routes.2.map (b.chainItems ents ++ b.entItems ents ++ .direct direct :: ·))

end Build

/-! ## The looper -/

/-- What the core answers: bytes since the last answer, for each tag. -/
structure QueryStatsResp where
  ups : List (String × ℤ)
  downs : List (String × ℤ)

/-- `int proxyUp = up` -/
def toInt32 (n : ℤ) : ℤ := n.bmod (2 ^ 32)

/-- The variables of a pass over the items; totals are of the uplink and the downlink. -/
structure Pass where
  heap : Heap
  proxy : ℤ × ℤ
  direct : ℤ × ℤ
  proxyUp : ℤ := 0
  proxyDown : ℤ := 0

/-- An item (lines 75–105). -/
def updateItem (resp : QueryStatsResp) (now : ℤ) (st : Pass) (c : Counter) : Pass :=
  let item := st.heap c
  match resp.ups.lookup item.tag with
  | none => st
  | some up =>
    if now - item.lastUpdate ≤ 0 then
      { st with heap := Function.update st.heap c { item with lastUpdate := now } }
    else
      let down := (resp.downs.lookup item.tag).getD 0
      let heap := Function.update st.heap c
        { item with lastUpdate := now, uplink := item.uplink + up, downlink := item.downlink + down }
      let st := if item.tag = "proxy" then
        { st with heap, proxyUp := toInt32 up, proxyDown := toInt32 down } else { st with heap }
      if item.ignoreForRate then st
      else if item.tag = "direct" then { st with direct := st.direct + (up, down) }
      else { st with proxy := st.proxy + (up, down) }

/-- The members of a chain carry what the chain does (lines 107–114). -/
def addChainTail (proxyUp proxyDown : ℤ) (heap : Heap) (c : Counter) : Heap :=
  let item := heap c
  if item.isChainTail then
    Function.update heap c
      { item with uplink := item.uplink + proxyUp, downlink := item.downlink + proxyDown }
  else heap

structure TrafficLooper where
  heap : Heap
  items : List Counter := []
  isChain : Bool := false
  proxy : ℤ × ℤ
  direct : ℤ × ℤ
  /-- builds so far -/
  builds : ℕ := 0

/-- `UpdateAll`, when statistics are not disabled: one reading of the clock in milliseconds,
    and the answer if there is one. -/
def TrafficLooper.updateAll (l : TrafficLooper) (now : ℤ) (resp : Option QueryStatsResp) :
    TrafficLooper :=
  let st : Pass := ⟨l.heap, l.proxy, l.direct, 0, 0⟩
  let st := match resp with
    | none => st
    | some resp => l.items.foldl (updateItem resp now) st
  let heap := if l.isChain then l.items.foldl (addChainTail st.proxyUp st.proxyDown) st.heap
    else st.heap
  { l with heap, proxy := st.proxy, direct := st.direct }

inductive TrafficEvent
  /-- a test, an export, or a start that fails -/
  | build (b : Build)
  /-- `profile_start` -/
  | start (b : Build)
  | updateAll (now : ℤ) (resp : Option QueryStatsResp)
  /-- the user resets the counters of a profile -/
  | reset (object : ℕ)

def TrafficLooper.build (l : TrafficLooper) (b : Build) : TrafficLooper :=
  { l with heap := (b.stats l.builds).1.foldl Write.apply l.heap, builds := l.builds + 1 }

def TrafficLooper.step (l : TrafficLooper) : TrafficEvent → TrafficLooper
  | .build b => l.build b
  | .start b =>
    match (b.stats l.builds).2 with
    | none => l.build b
    | some items => { l.build b with items, isChain := b.ent.type = "chain" }
  | .updateAll now resp => l.updateAll now resp
  | .reset object =>
    { l with heap := Function.update l.heap (.entity object) (l.heap (.entity object)).reset }

def TrafficLooper.run (l : TrafficLooper) (es : List TrafficEvent) : TrafficLooper :=
  es.foldl TrafficLooper.step l

/-! ## The history of a run -/

/-- The hops of its chain. -/
def Build.hops (b : Build) : ℕ :=
  match chainList b.env b.ent with
  | .ok ents => ents.length
  | .error _ => 0

/-- The builds of a run, in order. -/
def buildsOf (es : List TrafficEvent) : List Build :=
  es.filterMap fun e => match e with
    | .build b => some b
    | .start b => some b
    | _ => none

/-- What they have written, which has nothing to do with their direct counters. -/
def writesOf (es : List TrafficEvent) : List Write := (buildsOf es).flatMap fun b => (b.stats 0).1

/-- The entity has been made to stand for several hops, sometime. -/
def stoodForChain (es : List TrafficEvent) (object : ℕ) : Bool :=
  (buildsOf es).any fun b => decide (b.object b.ent.id = object ∧ 1 < b.hops)

def Write.tag : Write → Option String
  | outbound _ _ tag => some tag
  | chainTail _ => none
  | chain _ _ tag => some tag

/-- The last tag that an entity was given. -/
def lastTag (ws : List Write) (object : ℕ) : Option String :=
  (lastAt Write.object (ws.filter fun w => w.tag.isSome) object).bind Write.tag

/-- The tag of a counter after a run. -/
def tagAfter (es : List TrafficEvent) : Counter → String
  | .entity object => (lastTag (writesOf es) object).getD ""
  | .direct _ => "direct"

/-- The counter counts for the proxy. -/
def countsAsProxy (es : List TrafficEvent) : Counter → Bool
  | .entity object => !stoodForChain es object
  | .direct _ => false

/-- What the core has counted for a tag. -/
def QueryStatsResp.of (resp : QueryStatsResp) (tag : String) : ℤ × ℤ :=
  match resp.ups.lookup tag with
  | none => 0
  | some up => (up, (resp.downs.lookup tag).getD 0)

/-- Nothing has been built: the counters are as their constructors leave them. -/
structure Fresh (l : TrafficLooper) : Prop where
  items : l.items = []
  entity : ∀ object, (l.heap (.entity object)).tag = "" ∧
    (l.heap (.entity object)).ignoreForRate = false
  direct : ∀ build, (l.heap (.direct build)).tag = "direct" ∧
    (l.heap (.direct build)).ignoreForRate = false

/-- The clock is ahead of its earlier readings, and of what the counters start with. -/
structure Later (l : TrafficLooper) (es : List TrafficEvent) (now : ℤ) : Prop where
  start : ∀ c, (l.heap c).lastUpdate < now
  readings : ∀ t resp, .updateAll t resp ∈ es → t < now

/-! ## The writes -/

section

variable {ws : List Write} {heap : Heap} {object : ℕ}

theorem apply_entity (w : Write) : w.apply heap (.entity object) =
    if w.object = object then w.set (heap (.entity object)) else heap (.entity object) := by
  rw [Write.apply, Function.update_apply]
  by_cases h : w.object = object
  · rw [if_pos (congrArg _ h.symm), if_pos h, h]
  · rw [if_neg fun heq => h (Counter.entity.inj heq).symm, if_neg h]

theorem lastTag_concat (w : Write) : lastTag (ws ++ [w]) object =
    if w.object = object ∧ w.tag.isSome then w.tag else lastTag ws object := by
  unfold lastTag
  rw [List.filter_append]
  by_cases hw : w.tag.isSome
  · rw [List.filter_cons_of_pos (p := fun w : Write => w.tag.isSome) hw, List.filter_nil, lastAt_concat]
    by_cases hobject : w.object = object
    · rw [if_pos hobject, if_pos ⟨hobject, hw⟩, Option.bind_some]
    · rw [if_neg hobject, if_neg fun h => hobject h.1]
  · rw [List.filter_cons_of_neg (p := fun w : Write => w.tag.isSome) hw,
      List.filter_nil, List.append_nil, if_neg fun h => hw h.2]

/-- The last tag stays, and so does the mark of a chain. -/
theorem foldl_apply_entity : (ws.foldl Write.apply heap (.entity object)).tag =
      (lastTag ws object).getD (heap (.entity object)).tag ∧
    (ws.foldl Write.apply heap (.entity object)).ignoreForRate =
      ((heap (.entity object)).ignoreForRate ||
        ws.any fun w => match w with
          | .chain o _ _ => decide (o = object)
          | _ => false) ∧
    (ws.foldl Write.apply heap (.entity object)).lastUpdate = (heap (.entity object)).lastUpdate := by
  induction ws using List.reverseRecOn with
  | nil => simp [lastTag]
  | append_singleton ws w ih =>
    rw [List.foldl_append, List.foldl_cons, List.foldl_nil, apply_entity, lastTag_concat,
      List.any_append, List.any_cons, List.any_nil]
    by_cases h : w.object = object
    · rw [if_pos h]
      cases w <;> simp_all [Write.object, Write.set, Write.tag]
    · rw [if_neg h, if_neg fun h' => h h'.1]
      cases w <;> simp_all [Write.object]

theorem foldl_apply_direct (n : ℕ) : ws.foldl Write.apply heap (.direct n) = heap (.direct n) := by
  induction ws using List.reverseRecOn with
  | nil => rfl
  | append_singleton ws w ih =>
    rw [List.foldl_append, List.foldl_cons, List.foldl_nil, Write.apply,
      Function.update_of_ne (by simp), ih]

end

/-! ## One build -/

namespace Build

variable {b : Build}

/-- A write of a hop: its tag is that of a hop. -/
def OfHop (b : Build) (w : Write) : Prop :=
  (∀ object id tag, w ≠ .chain object id tag) ∧
    ∀ tag, w.tag = some tag → ∃ (suffix : ℤ) (index : ℕ) (ent : Profile),
      (suffix = -1 ∨ ∃ k : ℕ, suffix = k) ∧ tag = tagOut b.chainID suffix index ent

theorem ofHop_of_mem_chainWrites {suffix : ℤ} (hsuffix : suffix = -1 ∨ ∃ k : ℕ, suffix = k)
    {ents : List Profile} {w : Write} (h : w ∈ b.chainWrites suffix ents) : b.OfHop w := by
  obtain ⟨⟨ent, index⟩, -, h⟩ := List.mem_flatMap.mp h
  rcases List.mem_append.mp h with h | h
  · split_ifs at h
    · obtain rfl := List.mem_singleton.mp h
      exact ⟨by simp, by simp [Write.tag]⟩
    · cases h
  · split_ifs at h
    · cases h
    · obtain rfl := List.mem_singleton.mp h
      refine ⟨by simp, fun tag htag => ⟨suffix, index, ent, hsuffix, ?_⟩⟩
      exact (Option.some.inj htag).symm

theorem ofHop_of_mem_routeStats {ents : List Profile} {k : ℕ} {w : Write}
    (h : w ∈ (b.routeStats k ents).1) : b.OfHop w := by
  induction ents generalizing k with
  | nil => cases h
  | cons ent rest ih =>
    unfold routeStats at h
    dsimp only at h
    split_ifs at h
    · cases h
    · exact ofHop_of_mem_chainWrites (.inr ⟨k, rfl⟩) h
    · rcases List.mem_append.mp h with h | h
      · exact ofHop_of_mem_chainWrites (.inr ⟨k, rfl⟩) h
      · exact ih h

theorem not_direct_mem_routeStats {ents : List Profile} {k n : ℕ} {items : List Counter}
    (h : (b.routeStats k ents).2 = some items) : .direct n ∉ items := by
  induction ents generalizing k items with
  | nil =>
    obtain rfl := Option.some.inj h
    simp
  | cons ent rest ih =>
    unfold routeStats at h
    dsimp only at h
    split_ifs at h
    obtain ⟨more, hmore, rfl⟩ := Option.map_eq_some_iff.mp h
    simp [chainItems, ih hmore]

/-- What is written does not depend on the direct counter. -/
theorem stats_writes (n : ℕ) : (b.stats n).1 = (b.stats 0).1 := by
  unfold stats
  cases chainList b.env b.ent with
  | error _ => rfl
  | ok ents =>
    dsimp only
    split_ifs <;> rfl

/-- A write is one of a hop, or makes the profile stand for its hops. -/
theorem mem_stats {w : Write} (h : w ∈ (b.stats 0).1) : b.OfHop w ∨
    (1 < b.hops ∧ w = .chain (b.object b.ent.id) b.ent.id "proxy") := by
  unfold stats at h
  unfold hops
  cases hents : chainList b.env b.ent with
  | error _ =>
    rw [hents] at h
    cases h
  | ok ents =>
    rw [hents] at h
    dsimp only at h ⊢
    have hmain : w ∈ b.chainWrites (-1) ents ++ b.entWrites ents → b.OfHop w ∨
        (1 < ents.length ∧ w = .chain (b.object b.ent.id) b.ent.id "proxy") := by
      intro h
      rcases List.mem_append.mp h with h | h
      · exact .inl (ofHop_of_mem_chainWrites (.inl rfl) h)
      · unfold entWrites at h
        split_ifs at h with hlength
        · exact .inr ⟨hlength, List.mem_singleton.mp h⟩
        · cases h
    split_ifs at h
    · exact hmain h
    · rcases List.mem_append.mp h with h | h
      · exact hmain h
      · exact .inl (ofHop_of_mem_routeStats h)

theorem chain_mem_stats (h : 1 < b.hops) :
    .chain (b.object b.ent.id) b.ent.id "proxy" ∈ (b.stats 0).1 := by
  unfold hops at h
  unfold stats
  cases hents : chainList b.env b.ent with
  | error _ =>
    rw [hents] at h
    simp at h
  | ok ents =>
    rw [hents] at h
    dsimp only at h ⊢
    have hmain : .chain (b.object b.ent.id) b.ent.id "proxy" ∈
        b.chainWrites (-1) ents ++ b.entWrites ents := by
      refine List.mem_append_right _ ?_
      rw [entWrites, if_pos h]
      exact List.mem_singleton_self _
    split_ifs
    · exact hmain
    · exact List.mem_append_left _ hmain

theorem any_chain_stats (object : ℕ) :
    ((b.stats 0).1.any fun w => match w with
      | .chain o _ _ => decide (o = object)
      | _ => false) = decide (b.object b.ent.id = object ∧ 1 < b.hops) := by
  rw [Bool.eq_iff_iff, decide_eq_true_eq, List.any_eq_true]
  constructor
  · rintro ⟨w, hw, h⟩
    rcases mem_stats hw with hhop | ⟨hhops, rfl⟩
    · cases w with
      | chain o id tag => exact absurd rfl (hhop.1 o id tag)
      | outbound | chainTail => cases h
    · exact ⟨of_decide_eq_true h, hhops⟩
  · rintro ⟨hobject, hhops⟩
    exact ⟨_, chain_mem_stats hhops, decide_eq_true hobject⟩

/-- No outbound of a profile is called like the direct one. -/
theorem tag_ne_direct {w : Write} (h : w ∈ (b.stats 0).1) : w.tag ≠ some "direct" := by
  intro htag
  rcases mem_stats h with hhop | ⟨-, rfl⟩
  · obtain ⟨suffix, index, ent, hsuffix, heq⟩ := hhop.2 _ htag
    rcases hsuffix with rfl | ⟨k, rfl⟩
    · rcases @head_tagOut_main b.chainID index ent with h | h <;>
      · rw [← heq] at h
        simp at h
    · obtain ⟨s, hs⟩ := @toList_tagOut_route b.chainID index ent k
      rw [← heq] at hs
      simp at hs
  · simp [Write.tag] at htag

/-- The items have the direct counter of the build, and no other. -/
theorem direct_mem_stats {n m : ℕ} {items : List Counter} (h : (b.stats n).2 = some items) :
    .direct m ∈ items ↔ m = n := by
  unfold stats at h
  cases hents : chainList b.env b.ent with
  | error _ =>
    rw [hents] at h
    cases h
  | ok ents =>
    rw [hents] at h
    dsimp only at h
    split_ifs at h
    obtain ⟨routes, hroutes, rfl⟩ := Option.map_eq_some_iff.mp h
    have hent : Counter.direct m ∉ b.entItems ents := by
      unfold entItems
      split_ifs <;> simp
    simp [chainItems, hent, not_direct_mem_routeStats hroutes]

end Build

/-! ## One answer -/

/-- Two counters that are treated alike. -/
structure SameMarks (d d' : TrafficData) : Prop where
  tag : d'.tag = d.tag
  ignoreForRate : d'.ignoreForRate = d.ignoreForRate

theorem SameMarks.refl (d : TrafficData) : SameMarks d d := ⟨rfl, rfl⟩

theorem SameMarks.trans {d d' d'' : TrafficData} (h : SameMarks d d') (h' : SameMarks d' d'') :
    SameMarks d d'' :=
  ⟨h'.tag.trans h.tag, h'.ignoreForRate.trans h.ignoreForRate⟩

section

variable (resp : QueryStatsResp) (now : ℤ)

def QueryStatsResp.reports (tag : String) : Bool := (resp.ups.lookup tag).isSome

variable {resp}

theorem of_eq_zero {tag : String} (h : resp.reports tag = false) : resp.of tag = 0 := by
  unfold QueryStatsResp.reports at h
  unfold QueryStatsResp.of
  cases hup : resp.ups.lookup tag with
  | none => rfl
  | some up =>
    rw [hup] at h
    cases h

variable (resp)

/-- An item that the answer has is updated, however little time has gone by. -/
theorem updateItem_cases (st : Pass) (c : Counter) :
    (resp.reports (st.heap c).tag = false ∧ (updateItem resp now st c).heap = st.heap) ∨
      (resp.reports (st.heap c).tag = true ∧ ∃ item, SameMarks (st.heap c) item ∧
        item.lastUpdate = now ∧ (updateItem resp now st c).heap = Function.update st.heap c item) := by
  unfold QueryStatsResp.reports
  cases hup : resp.ups.lookup (st.heap c).tag with
  | none => exact .inl ⟨rfl, by simp only [updateItem, hup]⟩
  | some up =>
    refine .inr ⟨rfl, ?_⟩
    by_cases htime : now - (st.heap c).lastUpdate ≤ 0
    · refine ⟨{ st.heap c with lastUpdate := now }, ⟨rfl, rfl⟩, rfl, ?_⟩
      simp only [updateItem, hup, if_pos htime]
    · refine ⟨{ st.heap c with
        lastUpdate := now
        uplink := (st.heap c).uplink + up
        downlink := (st.heap c).downlink + (resp.downs.lookup (st.heap c).tag).getD 0 },
        ⟨rfl, rfl⟩, rfl, ?_⟩
      simp only [updateItem, hup, if_neg htime]
      split_ifs <;> rfl

theorem updateItem_heap (st : Pass) (c d : Counter) :
    SameMarks (st.heap d) ((updateItem resp now st c).heap d) ∧
      ((updateItem resp now st c).heap d).lastUpdate =
        if d = c ∧ resp.reports (st.heap d).tag then now else (st.heap d).lastUpdate := by
  by_cases hd : d = c
  · subst hd
    rcases updateItem_cases resp now st d with ⟨hreport, hheap⟩ | ⟨hreport, item, hmarks, hlast, hheap⟩
    · rw [hheap, hreport]
      exact ⟨.refl _, by simp⟩
    · rw [hheap, hreport, Function.update_self]
      exact ⟨hmarks, by simp [hlast]⟩
  · rw [if_neg fun h => hd h.1]
    rcases updateItem_cases resp now st c with ⟨-, hheap⟩ | ⟨-, item, -, -, hheap⟩
    · rw [hheap]
      exact ⟨.refl _, rfl⟩
    · rw [hheap, Function.update_of_ne hd]
      exact ⟨.refl _, rfl⟩

/-- It counts for one total, if time has gone by since its last update. -/
theorem updateItem_totals (st : Pass) (c : Counter) :
    (updateItem resp now st c).proxy = st.proxy +
        (if (st.heap c).lastUpdate < now ∧ (st.heap c).ignoreForRate = false ∧
          (st.heap c).tag ≠ "direct" then resp.of (st.heap c).tag else 0) ∧
      (updateItem resp now st c).direct = st.direct +
        if (st.heap c).lastUpdate < now ∧ (st.heap c).ignoreForRate = false ∧
          (st.heap c).tag = "direct" then resp.of (st.heap c).tag else 0 := by
  cases hup : resp.ups.lookup (st.heap c).tag with
  | none =>
    simp only [updateItem, QueryStatsResp.of, hup]
    simp
  | some up =>
    simp only [updateItem, QueryStatsResp.of, hup]
    by_cases hlater : (st.heap c).lastUpdate < now
    · rw [if_neg (by omega)]
      by_cases hignore : (st.heap c).ignoreForRate = true
      · split_ifs <;> simp_all
      · by_cases hdirect : (st.heap c).tag = "direct"
        · simp [hlater, hignore, hdirect]
        · split_ifs <;> simp_all
    · rw [if_pos (by omega)]
      simp [hlater]

variable {now}

/-- **A pass** over the items: each of them counts once, however often it is there. -/
theorem foldl_updateItem {st : Pass} (hst : ∀ c, (st.heap c).lastUpdate < now)
    (items : List Counter) :
    (∀ d, SameMarks (st.heap d) ((items.foldl (updateItem resp now) st).heap d) ∧
      ((items.foldl (updateItem resp now) st).heap d).lastUpdate =
        if d ∈ items ∧ resp.reports (st.heap d).tag then now else (st.heap d).lastUpdate) ∧
    (items.foldl (updateItem resp now) st).proxy = st.proxy + ∑ c ∈ items.toFinset,
      (if (st.heap c).ignoreForRate = false ∧ (st.heap c).tag ≠ "direct" then
        resp.of (st.heap c).tag else 0) ∧
    (items.foldl (updateItem resp now) st).direct = st.direct + ∑ c ∈ items.toFinset,
      if (st.heap c).ignoreForRate = false ∧ (st.heap c).tag = "direct" then
        resp.of (st.heap c).tag else 0 := by
  induction items using List.reverseRecOn with
  | nil => simp [SameMarks.refl]
  | append_singleton items c ih =>
    obtain ⟨hheap, hproxy, hdirect⟩ := ih
    rw [List.foldl_append, List.foldl_cons, List.foldl_nil]
    generalize items.foldl (updateItem resp now) st = st' at hheap hproxy hdirect
    obtain ⟨hproxy', hdirect'⟩ := updateItem_totals resp now st' c
    obtain ⟨hmarks, hlast⟩ := hheap c
    refine ⟨fun d => ?_, ?_⟩
    · obtain ⟨hmarks, hlast⟩ := hheap d
      obtain ⟨hmarks', hlast'⟩ := updateItem_heap resp now st' c d
      refine ⟨hmarks.trans hmarks', ?_⟩
      rw [hlast', hlast, hmarks.tag]
      simp only [List.mem_append, List.mem_singleton]
      split_ifs <;> first
        | rfl
        | exfalso
          tauto
    rw [hproxy', hdirect', hproxy, hdirect, hmarks.tag, hmarks.ignoreForRate, hlast,
      List.toFinset_append, List.toFinset_cons, List.toFinset_nil, insert_empty_eq,
      Finset.union_singleton]
    by_cases hmem : c ∈ items
    · -- the clock has not moved since the item came first
      rw [Finset.insert_eq_of_mem (List.mem_toFinset.mpr hmem)]
      by_cases hreport : resp.reports (st.heap c).tag
      · simp [hmem, hreport]
      · rw [Bool.not_eq_true] at hreport
        simp [of_eq_zero hreport]
    · rw [Finset.sum_insert (by simpa using hmem), Finset.sum_insert (by simpa using hmem)]
      simp only [hmem, false_and, if_false, hst c, true_and]
      exact ⟨by abel, by abel⟩

theorem foldl_addChainTail (up down : ℤ) (items : List Counter) (heap : Heap) (d : Counter) :
    SameMarks (heap d) (items.foldl (addChainTail up down) heap d) ∧
      (items.foldl (addChainTail up down) heap d).lastUpdate = (heap d).lastUpdate := by
  induction items using List.reverseRecOn with
  | nil => exact ⟨.refl _, rfl⟩
  | append_singleton items c ih =>
    rw [List.foldl_append, List.foldl_cons, List.foldl_nil]
    generalize items.foldl (addChainTail up down) heap = heap' at ih
    unfold addChainTail
    split_ifs
    · by_cases hd : d = c
      · subst hd
        rw [Function.update_self]
        exact ⟨ih.1.trans ⟨rfl, rfl⟩, ih.2⟩
      · rwa [Function.update_of_ne hd]
    · exact ih

end

/-! ## Whole runs -/

variable {l : TrafficLooper} {es : List TrafficEvent}

theorem run_concat (l : TrafficLooper) (es : List TrafficEvent) (e : TrafficEvent) :
    l.run (es ++ [e]) = (l.run es).step e := by
  rw [TrafficLooper.run, List.foldl_append]
  rfl

/-- The marks of the counters are those of the history, and so are their readings. -/
structure Remembers (l : TrafficLooper) (es : List TrafficEvent) (s : TrafficLooper) : Prop where
  tag : ∀ c, (s.heap c).tag = tagAfter es c
  ignoreForRate : ∀ c, (s.heap c).ignoreForRate = match c with
    | .entity object => stoodForChain es object
    | .direct _ => false
  lastUpdate : ∀ c, (s.heap c).lastUpdate = (l.heap c).lastUpdate ∨
    ∃ t resp, .updateAll t resp ∈ es ∧ (s.heap c).lastUpdate = t

theorem Remembers.congr {es' : List TrafficEvent} {s s' : TrafficLooper} (h : Remembers l es s)
    (hbuilds : buildsOf es' = buildsOf es) (hmarks : ∀ c, SameMarks (s.heap c) (s'.heap c))
    (hlast : ∀ c, (s'.heap c).lastUpdate = (l.heap c).lastUpdate ∨
      ∃ t resp, .updateAll t resp ∈ es' ∧ (s'.heap c).lastUpdate = t) : Remembers l es' s' where
  tag c := by
    rw [(hmarks c).tag, h.tag]
    unfold tagAfter writesOf
    rw [hbuilds]
  ignoreForRate c := by
    rw [(hmarks c).ignoreForRate, h.ignoreForRate]
    unfold stoodForChain
    rw [hbuilds]
  lastUpdate := hlast

theorem buildsOf_concat (es : List TrafficEvent) (e : TrafficEvent) :
    buildsOf (es ++ [e]) = buildsOf es ++ buildsOf [e] := List.filterMap_append

theorem lastTag_append (ws ws' : List Write) (object : ℕ) :
    lastTag (ws ++ ws') object = (lastTag ws' object).or (lastTag ws object) := by
  induction ws' using List.reverseRecOn with
  | nil => simp [lastTag]
  | append_singleton ws' w ih =>
    rw [← List.append_assoc, lastTag_concat, lastTag_concat, ih]
    split_ifs with h
    · obtain ⟨tag, htag⟩ := Option.isSome_iff_exists.mp h.2
      rw [htag, Option.some_or]
    · rfl

/-- What a build remembers of itself. -/
theorem Remembers.build {s : TrafficLooper} (h : Remembers l es s) {b : Build} {e : TrafficEvent}
    (he : buildsOf [e] = [b]) : Remembers l (es ++ [e]) (s.build b) := by
  have hbuilds : buildsOf (es ++ [e]) = buildsOf es ++ [b] := by rw [buildsOf_concat, he]
  have hwrites : (s.build b).heap = (b.stats 0).1.foldl Write.apply s.heap := by
    rw [TrafficLooper.build, Build.stats_writes]
  constructor
  · intro c
    cases c with
    | direct n => rw [hwrites, foldl_apply_direct, h.tag, tagAfter, tagAfter]
    | entity object =>
      rw [hwrites, foldl_apply_entity.1, h.tag, tagAfter, tagAfter, writesOf, writesOf, hbuilds,
        List.flatMap_append, List.flatMap_singleton, lastTag_append]
      cases lastTag (b.stats 0).1 object <;> rfl
  · intro c
    cases c with
    | direct n =>
      rw [hwrites, foldl_apply_direct]
      exact h.ignoreForRate (.direct n)
    | entity object =>
      rw [hwrites, foldl_apply_entity.2.1, h.ignoreForRate (.entity object),
        Build.any_chain_stats]
      simp [stoodForChain, hbuilds]
  · intro c
    have hlast : ((s.build b).heap c).lastUpdate = (s.heap c).lastUpdate := by
      cases c with
      | direct n => rw [hwrites, foldl_apply_direct]
      | entity object => rw [hwrites, foldl_apply_entity.2.2]
    rw [hlast]
    refine (h.lastUpdate c).imp_right ?_
    rintro ⟨t, resp, hmem, ht⟩
    exact ⟨t, resp, List.mem_append_left _ hmem, ht⟩

theorem Remembers.lt {s : TrafficLooper} (h : Remembers l es s) {now : ℤ} (hnow : Later l es now)
    (c : Counter) : (s.heap c).lastUpdate < now := by
  rcases h.lastUpdate c with heq | ⟨t, resp, hmem, heq⟩
  · rw [heq]
    exact hnow.start c
  · rw [heq]
    exact hnow.readings t resp hmem

/-- An answer leaves the marks alone. -/
theorem foldl_updateItem_marks (resp : QueryStatsResp) (now : ℤ) (st : Pass) (items : List Counter)
    (c : Counter) :
    SameMarks (st.heap c) ((items.foldl (updateItem resp now) st).heap c) ∧
      (((items.foldl (updateItem resp now) st).heap c).lastUpdate = (st.heap c).lastUpdate ∨
        ((items.foldl (updateItem resp now) st).heap c).lastUpdate = now) := by
  induction items using List.reverseRecOn with
  | nil => exact ⟨.refl _, .inl rfl⟩
  | append_singleton items d ih =>
    rw [List.foldl_append, List.foldl_cons, List.foldl_nil]
    generalize items.foldl (updateItem resp now) st = st' at ih
    obtain ⟨hmarks, hlast⟩ := updateItem_heap resp now st' d c
    refine ⟨ih.1.trans hmarks, ?_⟩
    rw [hlast]
    split_ifs
    · exact .inr rfl
    · exact ih.2

theorem updateAll_marks (l : TrafficLooper) (now : ℤ) (resp : Option QueryStatsResp) (c : Counter) :
    SameMarks (l.heap c) ((l.updateAll now resp).heap c) ∧
      (((l.updateAll now resp).heap c).lastUpdate = (l.heap c).lastUpdate ∨
        ((l.updateAll now resp).heap c).lastUpdate = now) := by
  obtain ⟨st, hst, hheap⟩ : ∃ st : Pass, (SameMarks (l.heap c) (st.heap c) ∧
      ((st.heap c).lastUpdate = (l.heap c).lastUpdate ∨ (st.heap c).lastUpdate = now)) ∧
      (l.updateAll now resp).heap =
        if l.isChain then l.items.foldl (addChainTail st.proxyUp st.proxyDown) st.heap
        else st.heap := by
    cases resp with
    | none => exact ⟨⟨l.heap, l.proxy, l.direct, 0, 0⟩, ⟨.refl _, .inl rfl⟩, rfl⟩
    | some resp =>
      exact ⟨_, foldl_updateItem_marks resp now ⟨l.heap, l.proxy, l.direct, 0, 0⟩ l.items c, rfl⟩
  rw [hheap]
  split_ifs
  · obtain ⟨hmarks, hlast⟩ := foldl_addChainTail st.proxyUp st.proxyDown l.items st.heap c
    exact ⟨hst.1.trans hmarks, by rw [hlast]; exact hst.2⟩
  · exact hst

theorem start_heap (l : TrafficLooper) (b : Build) :
    (l.step (.start b)).heap = (l.build b).heap := by
  simp only [TrafficLooper.step]
  split <;> rfl

theorem start_items (l : TrafficLooper) (b : Build) :
    (l.step (.start b)).items = ((b.stats l.builds).2).getD l.items := by
  simp only [TrafficLooper.step]
  cases (b.stats l.builds).2 <;> rfl

theorem reset_marks (l : TrafficLooper) (object : ℕ) (c : Counter) :
    SameMarks (l.heap c) ((l.step (.reset object)).heap c) ∧
      ((l.step (.reset object)).heap c).lastUpdate = (l.heap c).lastUpdate := by
  simp only [TrafficLooper.step]
  by_cases hc : c = .entity object
  · subst hc
    rw [Function.update_self]
    exact ⟨⟨rfl, rfl⟩, rfl⟩
  · rw [Function.update_of_ne hc]
    exact ⟨.refl _, rfl⟩

/-- **The marks of every run** are told by its builds. -/
theorem remembers_run (hl : Fresh l) (es : List TrafficEvent) : Remembers l es (l.run es) := by
  induction es using List.reverseRecOn with
  | nil =>
    refine ⟨fun c => ?_, fun c => ?_, fun c => .inl rfl⟩
    · cases c with
      | entity object => exact (hl.entity object).1
      | direct n => exact (hl.direct n).1
    · cases c with
      | entity object => exact (hl.entity object).2
      | direct n => exact (hl.direct n).2
  | append_singleton es e ih =>
    rw [run_concat]
    have hold : ∀ c, ((l.run es).heap c).lastUpdate = (l.heap c).lastUpdate ∨
        ∃ t resp, .updateAll t resp ∈ es ++ [e] ∧ ((l.run es).heap c).lastUpdate = t := by
      intro c
      refine (ih.lastUpdate c).imp_right ?_
      rintro ⟨t, resp, hmem, ht⟩
      exact ⟨t, resp, List.mem_append_left _ hmem, ht⟩
    cases e with
    | build b => exact ih.build rfl
    | start b =>
      have hbuild : Remembers l (es ++ [.start b]) ((l.run es).build b) := ih.build rfl
      exact ⟨by rw [start_heap]; exact hbuild.tag, by rw [start_heap]; exact hbuild.ignoreForRate,
        by rw [start_heap]; exact hbuild.lastUpdate⟩
    | updateAll now resp =>
      refine ih.congr (by simp [buildsOf])
        (fun c => (updateAll_marks (l.run es) now resp c).1) fun c => ?_
      rcases (updateAll_marks (l.run es) now resp c).2 with heq | heq
      · rw [TrafficLooper.step, heq]
        exact hold c
      · exact .inr ⟨now, resp, List.mem_append_right _ (List.mem_singleton_self _), heq⟩
    | reset object =>
      refine ih.congr (by simp [buildsOf])
        (fun c => (reset_marks (l.run es) object c).1) fun c => ?_
      rw [(reset_marks (l.run es) object c).2]
      exact hold c

/-- The items have one direct counter, once a config is running. -/
theorem direct_items (hl : Fresh l) (es : List TrafficEvent) : (l.run es).items = [] ∨
    ∃ n, ∀ m, .direct m ∈ (l.run es).items ↔ m = n := by
  induction es using List.reverseRecOn with
  | nil => exact .inl hl.items
  | append_singleton es e ih =>
    rw [run_concat]
    cases e with
    | build b => exact ih
    | start b =>
      rw [start_items]
      cases hstats : (b.stats (l.run es).builds).2 with
      | none => exact ih
      | some items => exact .inr ⟨_, fun m => Build.direct_mem_stats hstats⟩
    | updateAll now resp => exact ih
    | reset object => exact ih

theorem mem_writesOf {w : Write} (h : w ∈ writesOf es) : w.tag ≠ some "direct" := by
  obtain ⟨b, -, hw⟩ := List.mem_flatMap.mp h
  exact Build.tag_ne_direct hw

theorem tagAfter_entity_ne (es : List TrafficEvent) (object : ℕ) :
    tagAfter es (.entity object) ≠ "direct" := by
  show (lastTag (writesOf es) object).getD "" ≠ "direct"
  unfold lastTag
  cases hlast : lastAt Write.object ((writesOf es).filter fun w => w.tag.isSome) object with
  | none => simp
  | some w =>
    obtain ⟨hmem, -⟩ := mem_of_lastAt hlast
    obtain ⟨hw, hsome⟩ := List.mem_filter.mp hmem
    obtain ⟨tag, htag⟩ := Option.isSome_iff_exists.mp hsome
    rw [Option.bind_some, htag, Option.getD_some]
    rintro rfl
    exact mem_writesOf hw htag

/-- **The totals of every run**: an answer adds, for each counter of the running config, what
    the core has counted for its tag, unless its entity once stood for a chain; what goes out
    directly is counted whenever a config is running. -/
theorem totals_run (hl : Fresh l) (es : List TrafficEvent) {now : ℤ} (hnow : Later l es now)
    (resp : QueryStatsResp) :
    (l.run (es ++ [.updateAll now (some resp)])).proxy = (l.run es).proxy +
        ∑ c ∈ (l.run es).items.toFinset.filter (countsAsProxy es ·), resp.of (tagAfter es c) ∧
      (l.run (es ++ [.updateAll now (some resp)])).direct = (l.run es).direct +
        if (l.run es).items = [] then 0 else resp.of "direct" := by
  have h := remembers_run hl es
  obtain ⟨-, hproxy, hdirect⟩ := @foldl_updateItem resp now
    ⟨(l.run es).heap, (l.run es).proxy, (l.run es).direct, 0, 0⟩ (h.lt hnow) (l.run es).items
  rw [run_concat]
  refine ⟨hproxy.trans ?_, hdirect.trans ?_⟩
  · rw [Finset.sum_filter]
    refine congrArg _ (Finset.sum_congr rfl fun c _ => ?_)
    simp only [h.tag, h.ignoreForRate]
    cases c with
    | entity object =>
      have hne := tagAfter_entity_ne es object
      simp [countsAsProxy, hne]
    | direct n => simp [countsAsProxy, tagAfter]
  · refine congrArg _ ?_
    simp only [h.tag, h.ignoreForRate]
    rcases direct_items hl es with hitems | ⟨n, hn⟩
    · simp [hitems]
    · have hmem : Counter.direct n ∈ (l.run es).items := (hn n).mpr rfl
      rw [if_neg (List.ne_nil_of_mem hmem)]
      rw [Finset.sum_eq_single (.direct n)]
      · simp [tagAfter]
      · intro c hc hne
        cases c with
        | entity object => exact if_neg fun h => tagAfter_entity_ne es object h.2
        | direct m => exact absurd (congrArg _ ((hn m).mp (List.mem_toFinset.mp hc))) hne
      · exact fun hnot => absurd (List.mem_toFinset.mpr hmem) hnot

/-! ## A profile that had a front proxy -/

/-- What `ProxyEntity` and the builder make of new counters. -/
def newLooper : TrafficLooper where
  heap := fun c => match c with
    | .entity _ => { tag := "", lastUpdate := 0 }
    | .direct _ => { tag := "direct", lastUpdate := 0 }
  proxy := 0
  direct := 0

/-- The group has the front proxy 2, or none. -/
def groupBuild (frontProxyId : ℤ) : Build where
  env := { socksEnvironment with getGroup := fun _ => some ⟨-1, frontProxyId⟩ }
  ent := socksProfile 1
  forTest := false
  chainID := 0
  routes := []
  object := Int.toNat

theorem fresh_newLooper : Fresh newLooper :=
  ⟨rfl, fun _ => ⟨rfl, rfl⟩, fun _ => ⟨rfl, rfl⟩⟩

/-- The front proxy is taken away, and the profile still does not count. -/
theorem totals_run_groupBuild :
    (newLooper.run [.start (groupBuild 2), .start (groupBuild (-1)),
      .updateAll 1000 (some ⟨[("proxy", 500), ("direct", 7)], []⟩)]).proxy = 0 ∧
    (newLooper.run [.start (groupBuild 2), .start (groupBuild (-1)),
      .updateAll 1000 (some ⟨[("proxy", 500), ("direct", 7)], []⟩)]).direct = (7, 0) ∧
    (newLooper.run [.start (groupBuild (-1)),
      .updateAll 1000 (some ⟨[("proxy", 500), ("direct", 7)], []⟩)]).proxy = (500, 0) := by
  have hlater : ∀ bs : List Build, Later newLooper (bs.map .start) 1000 := by
    intro bs
    refine ⟨fun c => ?_, fun t resp h => ?_⟩
    · show (newLooper.heap c).lastUpdate < 1000
      cases c <;> simp [newLooper]
    · simp at h
  obtain ⟨hproxy, hdirect⟩ := totals_run fresh_newLooper
    ([groupBuild 2, groupBuild (-1)].map .start) (hlater _) ⟨[("proxy", 500), ("direct", 7)], []⟩
  obtain ⟨hproxy', -⟩ := totals_run fresh_newLooper
    ([groupBuild (-1)].map .start) (hlater _) ⟨[("proxy", 500), ("direct", 7)], []⟩
  exact ⟨hproxy.trans (by decide), hdirect.trans (by decide), hproxy'.trans (by decide)⟩

end NekoBox.Stats
