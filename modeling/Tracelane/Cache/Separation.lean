import Tracelane.Cache.Fields

/-
  Requests that differ have different cache keys.

  The messages are framed, and tell requests apart whatever they hold.  The parameters do where no
  untagged field runs into another.
-/

namespace Tracelane.Cache

open List
open Framing
open Guardrail

section Streams

variable {serde : Serde} {blake3 : Bytes → ByteArr 32} {a b : ChatRequest}

--
-- Streams
--

variable {u x y : Bytes} {m n : Message}

theorem agree_of_append_eq {v : Bytes} (hEq : u ++ x = v ++ y) :
    agree u v = true := by
  have hV : v <+: u ++ x := by
    rw [hEq]
    exact prefix_append v y
  have hEither := prefix_or_prefix_of_prefix (prefix_append u x) hV
  simpa [agree] using hEither

theorem length_counts (r : ChatRequest) :
    (counts r).length = 8 := by
  simp [counts, u32Le]

/- A longer model must run on into the other's counts. -/
theorem modelRunsOn_of_lt (hLess : (modelBytes a).length < (modelBytes b).length)
    (hEq : modelBytes a ++ (counts a ++ x) = modelBytes b ++ (counts b ++ y)) :
    modelRunsOn a b = true := by
  have hStart : modelBytes a <+: modelBytes b := by
    have hA : modelBytes a <+: modelBytes b ++ (counts b ++ y) := by
      rw [← hEq]
      exact prefix_append _ _
    exact prefix_of_prefix_length_le hA (prefix_append _ _) hLess.le
  rcases hStart with ⟨w, hW⟩
  have hRest : counts a ++ x = w ++ (counts b ++ y) := by
    rw [← hW, append_assoc] at hEq
    exact append_cancel_left hEq
  have hDrop : (modelBytes b).drop (modelBytes a).length = w := by rw [← hW, drop_left]
  simp only [modelRunsOn, hDrop, hLess, decide_true,
    Bool.true_and, Bool.and_eq_true, isPrefixOf_iff_prefix]
  exact ⟨⟨w, hW⟩, agree_of_append_eq hRest.symm⟩

/- A field only the other has is posed as by the prompt. -/
theorem systemPosesAs_of_append {f : Field}
    (hOpens : Opens f (u ++ x)) (hU : field serde a f = some u) (hNone : field serde b f = none)
    (hEq : u ++ x = systemBytes b ++ historyBytes serde blake3 b) :
    systemPosesAs serde a b = true := by
  have hSome : systemBytes b ≠ [] := by
    intro hNil
    rw [hEq, hNil, nil_append] at hOpens
    unfold historyBytes at hOpens
    cases hHistory : toolHistoryDigest serde blake3 b.messages with
    | none =>
      rw [hHistory] at hOpens
      exact not_opens_nil f hOpens
    | some digest =>
      rw [hHistory] at hOpens
      exact not_opens_history f _ hOpens
  simp only [systemPosesAs, Bool.and_eq_true, Bool.not_eq_true', isEmpty_eq_false_iff, any_eq_true]
  refine ⟨hSome, f, f.mem_all, ?_⟩
  rw [hU, hNone]
  exact agree_of_append_eq hEq

theorem length_hexDigest (stream : Bytes) :
    (utf8 (hexDigest blake3 stream)).length = 64 := by
  simp [hexDigest]

theorem length_historyBytes (serde : Serde) (blake3 : Bytes → ByteArr 32) (r : ChatRequest) :
    historyBytes serde blake3 r = [] ∨
      (historyBytes serde blake3 r).length = (utf8 historyTag).length + 64 := by
  unfold historyBytes toolHistoryDigest
  split
  · right
    simp only [Option.map_some, Option.getD_some, length_append, length_hexDigest]
  · left
    rfl

/- The prompts are the same unless one carries a mark. -/
theorem systemBytes_inj (hA : systemMarks serde blake3 a b = false)
    (hB : systemMarks serde blake3 b a = false)
    (hEq :
      systemBytes a ++ historyBytes serde blake3 a = systemBytes b ++ historyBytes serde blake3 b) :
    systemBytes a = systemBytes b := by
  rcases length_historyBytes serde blake3 a with hNoA | hLongA
  · by_cases hNoB : historyBytes serde blake3 b = []
    · rw [hNoA, hNoB, append_nil, append_nil] at hEq
      exact hEq
    · rw [hNoA, append_nil] at hEq
      simp [systemMarks, hNoB, hEq] at hB
  · rcases length_historyBytes serde blake3 b with hNoB | hLongB
    · have hSome : historyBytes serde blake3 a ≠ [] := by
        intro hNil
        rw [hNil] at hLongA
        simp at hLongA
      rw [hNoB, append_nil] at hEq
      simp [systemMarks, hSome, ← hEq] at hA
    · exact (append_inj' hEq (hLongA.trans hLongB.symm)).1

theorem text_eq_of_bytes {p q : Option Text}
    (hEq : (p.map Text.bytes).getD [] = (q.map Text.bytes).getD []) :
    p.getD emptyText = q.getD emptyText := by
  have hBytes : ∀ o : Option Text, (o.getD emptyText).bytes = (o.map Text.bytes).getD [] := by
    intro o
    cases o with
    | none => decide
    | some t => rfl
  apply Text.bytes_injective
  rw [hBytes p, hBytes q, hEq]

/- Equal in every field, and so in all that is told apart. -/
theorem settings_eq_of_fields (hPrints : Prints serde a b) (hA : Fits a)
    (hB : Fits b) (hModel : modelBytes a = modelBytes b) (hCounts : counts a = counts b)
    (hFields : ∀ f, field serde a f = field serde b f) (hSystem : systemBytes a = systemBytes b) :
    a.settings = b.settings := by
  have hValue : ∀ f, fieldValue serde a f = fieldValue serde b f :=
    fun f => Option.map_injective (fun _ _ => append_cancel_left) (hFields f)
  rcases delimits_u32Le.append_inj trivial trivial (x := u32Le (a.temperature.getD minusOne))
    (y := u32Le (b.temperature.getD minusOne)) hCounts with
    ⟨hMaxTokens, hTemperature⟩
  have hExtra := hValue .extra
  rw [fieldValue_extra, fieldValue_extra] at hExtra
  simp only [ChatRequest.settings, Settings.mk.injEq]
  exact ⟨Text.bytes_injective hModel, hMaxTokens, delimits_u32Le.inj trivial trivial hTemperature,
    (delimits_tools hPrints hA hB).map_inj (hValue .tools),
    (delimits_toolChoice hPrints).map_inj (hValue .toolChoice),
    (delimits_u32Le.mono (Set.subset_univ _)).map_inj (hValue .topP),
    (delimits_u64Le.mono (Set.subset_univ _)).map_inj (hValue .seed),
    (delimits_boolByte.mono (Set.subset_univ _)).map_inj (hValue .logprobs),
    (delimits_byte.mono (Set.subset_univ _)).map_inj (hValue .topLogprobs),
    (delimits_stop hA hB).map_inj (hValue .stop),
    (delimits_responseFormat hPrints).map_inj (hValue .responseFormat),
    (delimits_hashField.mono (Set.subset_univ _)).map_inj (hValue .reasoningEffort),
    (delimits_u32Le.mono (Set.subset_univ _)).map_inj (hValue .maxCompletionTokens),
    (delimits_u32Le.mono (Set.subset_univ _)).map_inj (hValue .presencePenalty),
    (delimits_u32Le.mono (Set.subset_univ _)).map_inj (hValue .frequencyPenalty),
    (delimits_boolByte.mono (Set.subset_univ _)).map_inj (hValue .parallelToolCalls),
    extraValue_inj ((delimits_extra hPrints).map_inj hExtra), text_eq_of_bytes hSystem⟩

/- Read from the front: the model, the counts, the fields in their order, and the system prompt. -/
theorem paramsStream_inj (hPrints : Prints serde a b) (hA : Fits a)
    (hB : Fits b) (hApart : runsTogether serde blake3 a b = false)
    (hEq : paramsStream serde blake3 a = paramsStream serde blake3 b) :
    a.settings = b.settings := by
  simp only [runsTogether, runsOver, Bool.or_eq_false_iff] at hApart
  rcases hApart with ⟨⟨⟨hRunsA, hPosesA⟩, hMarksA⟩, ⟨hRunsB, hPosesB⟩, hMarksB⟩
  unfold paramsStream at hEq
  have hLen : (modelBytes a).length = (modelBytes b).length := by
    rcases Nat.lt_trichotomy (modelBytes a).length (modelBytes b).length with hLess | hSame | hMore
    · rw [modelRunsOn_of_lt hLess hEq] at hRunsA
      cases hRunsA
    · exact hSame
    · rw [modelRunsOn_of_lt hMore hEq.symm] at hRunsB
      cases hRunsB
  rcases append_inj hEq hLen with ⟨hModel, hRest⟩
  rcases append_inj hRest ((length_counts a).trans (length_counts b).symm) with ⟨hCounts, hRest⟩
  have hOpensA := field_opens (fun t hT => hPrints.toolsOpen t (.inl hT))
  have hOpensB := field_opens (fun t hT => hPrints.toolsOpen t (.inr hT))
  rcases joined_append_inj (by decide) opens_apart hOpensA hOpensB
      (field_self hPrints hA hB)
      (fun f v x hV hNone hTail => by
        rw [systemPosesAs_of_append (hOpensB f v x hV) hV hNone hTail] at hPosesB
        cases hPosesB)
      (fun f u x hU hNone hTail => by
        rw [systemPosesAs_of_append (hOpensA f u x hU) hU hNone hTail] at hPosesA
        cases hPosesA)
      hRest with
    ⟨hFields, hTail⟩
  exact settings_eq_of_fields hPrints hA hB hModel hCounts (fun f => hFields f f.mem_all)
    (systemBytes_inj hMarksA hMarksB hTail)

--
-- Messages
--

theorem length_messageFields (m : Message) :
    (messageFields serde m).length = 5 := by
  unfold messageFields
  cases m.content <;> rfl

theorem messageFields_fit (m : Message) (bytes : Bytes) (hBytes : bytes ∈ messageFields serde m) :
    bytes.length < 256 ^ 8 := by
  have hText : ∀ o : Option Text, ((o.map Text.bytes).getD []).length < 256 ^ 8 := by
    intro o
    cases o with
    | none => decide
    | some t => exact t.length_bytes_lt
  have hCalls : (callsBytes serde m).length < 256 ^ 8 := by
    have hLess := hText (m.toolCalls.map serde.toolCalls)
    rwa [Option.map_map] at hLess
  have hRole : (utf8 (roleName m.role)).length < 256 ^ 8 := by
    cases m.role <;> decide
  have hContent : ∀ f ∈ contentFields serde m.content, f.length < 256 ^ 8 := by
    cases m.content with
    | text t =>
      exact forall_mem_cons.mpr ⟨by decide, forall_mem_singleton.mpr t.length_bytes_lt⟩
    | parts parts =>
      exact forall_mem_cons.mpr
        ⟨by decide, forall_mem_singleton.mpr (serde.parts parts).length_bytes_lt⟩
  simp only [messageFields, mem_cons, mem_append, not_mem_nil, or_false] at hBytes
  rcases hBytes with rfl | hField | rfl | rfl
  · exact hRole
  · exact hContent _ hField
  · exact hText m.toolCallId
  · exact hCalls

theorem roleName_inj {p q : Role} (hEq : utf8 (roleName p) = utf8 (roleName q)) :
    p = q := by
  have hName := utf8_injective hEq
  cases p <;> cases q <;> first | rfl | exact absurd hName (by decide)

section

variable (hPrints : Prints serde a b) (hM : m ∈ a.messages) (hN : n ∈ b.messages)
include hPrints hM hN

theorem content_inj (hEq : contentFields serde m.content = contentFields serde n.content) :
    m.content = n.content := by
  have hKinds : utf8 "text" ≠ utf8 "parts" := fun hSame => absurd (utf8_injective hSame) (by decide)
  cases hMc : m.content with
  | text t =>
    cases hNc : n.content with
    | text u =>
      simp only [hMc, hNc, contentFields, cons.injEq, true_and, and_true] at hEq
      rw [Text.bytes_injective hEq]
    | parts q =>
      simp only [hMc, hNc, contentFields, cons.injEq] at hEq
      exact absurd hEq.1 hKinds
  | parts p =>
    cases hNc : n.content with
    | text u =>
      simp only [hMc, hNc, contentFields, cons.injEq] at hEq
      exact absurd hEq.1.symm hKinds
    | parts q =>
      simp only [hMc, hNc, contentFields, cons.injEq, true_and, and_true] at hEq
      have hSame :=
        hPrints.parts ⟨m, by simp [hM], hMc⟩
          ⟨n, by simp [hN], hNc⟩
          (Text.bytes_injective hEq)
      rw [hSame]

theorem calls_inj (hEq : callsBytes serde m = callsBytes serde n) :
    m.toolCalls.getD [] = n.toolCalls.getD [] := by
  have hNothing : ∀ calls, (serde.toolCalls calls).bytes = [] → calls = [] := by
    intro calls hNil
    by_contra hSome
    exact hPrints.callsSome calls hSome hNil
  unfold callsBytes at hEq
  cases hMc : m.toolCalls with
  | none =>
    cases hNc : n.toolCalls with
    | none => rfl
    | some d =>
      rw [hMc, hNc] at hEq
      exact (hNothing d hEq.symm).symm
  | some c =>
    cases hNc : n.toolCalls with
    | none =>
      rw [hMc, hNc] at hEq
      exact hNothing c hEq
    | some d =>
      rw [hMc, hNc] at hEq
      exact hPrints.calls ⟨m, by simp [hM], hMc⟩ ⟨n, by simp [hN], hNc⟩ (Text.bytes_injective hEq)

theorem messageIdentity_inj (hEq : messageFields serde m = messageFields serde n) :
    messageIdentity m = messageIdentity n := by
  unfold messageFields at hEq
  rw [cons.injEq] at hEq
  rcases append_inj' hEq.2 rfl with ⟨hContent, hTools⟩
  simp only [cons.injEq, and_true] at hTools
  simp only [messageIdentity, MessageIdentity.mk.injEq]
  exact ⟨roleName_inj hEq.1, content_inj hPrints hM hN hContent,
    text_eq_of_bytes hTools.1, calls_inj hPrints hM hN hTools.2⟩

end

theorem map_eq_of_inj {α β γ : Type} {f : α → β} {g : α → γ} {us vs : List α}
    (hInj : ∀ u ∈ us, ∀ v ∈ vs, f u = f v → g u = g v) (hEq : us.map f = vs.map f) :
    us.map g = vs.map g := by
  induction us generalizing vs with
  | nil =>
    cases vs with
    | nil => rfl
    | cons v vs => cases hEq
  | cons u us ih =>
    cases vs with
    | nil => cases hEq
    | cons v vs =>
      rw [map_cons, map_cons, cons.injEq] at hEq
      rw [map_cons, map_cons, hInj u (by simp) v (by simp) hEq.1,
        ih (fun w hW z hZ => hInj w (by simp [hW]) z (by simp [hZ])) hEq.2]

/- The messages are read to the end, and nothing is lost. -/
theorem exactStream_inj (hPrints : Prints serde a b)
    (hEq : exactStream serde (hexDigest blake3 x) a = exactStream serde (hexDigest blake3 y) b) :
    hexDigest blake3 x = hexDigest blake3 y ∧
      a.messages.map messageIdentity = b.messages.map messageIdentity := by
  unfold exactStream at hEq
  rcases append_inj (append_cancel_left hEq)
    ((length_hexDigest x).trans (length_hexDigest y).symm) with
    ⟨hHash, hRest⟩
  refine ⟨utf8_injective hHash, ?_⟩
  have hRecord :
      Delimits
        {fields : List Bytes | fields.length = 5 ∧
          ∀ bytes ∈ fields, bytes.length < 256 ^ 8}
        (fun fields => messageMark ++ fields.flatMap framed) := by
    apply Delimits.tagged
    intro us hUs vs hVs x y hEq
    exact (delimits_framed.flatMap_append_inj hUs.2 hVs.2 (hUs.1.trans hVs.1.symm) hEq).1
  have hMem :
      ∀ r : ChatRequest,
        ∀ fields ∈ r.messages.map (messageFields serde),
          fields.length = 5 ∧ ∀ bytes ∈ fields, bytes.length < 256 ^ 8 := by
    intro r fields hFields
    rcases mem_map.mp hFields with ⟨m, _, rfl⟩
    exact ⟨length_messageFields m, messageFields_fit m⟩
  have hFields :=
    hRecord.flatMap_inj (fun _ _ hNil => by cases hNil)
      (hMem a) (hMem b) hRest
  exact map_eq_of_inj (fun m hM n hN => messageIdentity_inj hPrints hM hN) hFields

end Streams

--
-- Keys
--

/- What a policy, a tenant and a route are hashed as. -/
def keyMarks (policy : CachePolicy) (context : CanaryCacheContext)
    (routeNamespace : Option Text) : List Bytes :=
  (policy.ttlHours.map (fun ttl => framed (u32Le ttl))).toList ++
    (policy.fold.map (fun fold => framed fold.bytes)).toList ++
    (if context.canaryNamespace.str ≠ "" ∨
        routeNamespace.isSome then
      [hashField context.canaryNamespace ++ (routeNamespace.map hashField).getD []]
    else [])

section Keys

variable (blake3 : Bytes → ByteArr 32)

def rehashAll (marks : List Bytes) (hash : String) : String :=
  marks.foldl (fun hash more => rehash blake3 more hash) hash

/- The streams that are hashed on the way. -/
def rehashStreams : List Bytes → String → List Bytes
| [], _ => []
| more :: rest, hash =>
    (framed (utf8 hash) ++ more) ::
      rehashStreams rest (rehash blake3 more hash)

variable (serde : Serde) (policy : CachePolicy) (context : CanaryCacheContext)
variable (routeNamespace : Option Text)

/- The key a request is looked up under. -/
def boundKey (r : ChatRequest) : RequestKey :=
  bindKey blake3 context routeNamespace (policy.key blake3 (requestKey serde blake3 r))

/- Every stream that is hashed for that key. -/
def keyStreams (r : ChatRequest) : List Bytes :=
  let key := requestKey serde blake3 r
  let marks := keyMarks policy context routeNamespace
  [paramsStream serde blake3 r, exactStream serde key.paramsHash r] ++
    (rehashStreams blake3 marks key.exactHash ++ rehashStreams blake3 marks key.paramsHash)

variable {blake3}

variable {x y : Bytes} {S : Set Bytes}

theorem hexEncode_injective (hEq : hexEncode x = hexEncode y) :
    x = y := by
  have hPairs := hexPairs_utf8_hexEncode x
  rw [hEq, hexPairs_utf8_hexEncode] at hPairs
  exact (Option.some.inj hPairs).symm

theorem stream_eq_of_hexDigest (hInj : Set.InjOn blake3 S)
    (hX : x ∈ S) (hY : y ∈ S) (hEq : hexDigest blake3 x = hexDigest blake3 y) :
    x = y :=
  hInj hX hY (ByteArr.bytes_injective (hexEncode_injective hEq))

/- Induction on the marks, each of them hashed last. -/
theorem rehashAll_inj (hInj : Set.InjOn blake3 S) (marks : List Bytes) (x y : Bytes)
    (hX : ∀ z ∈ rehashStreams blake3 marks (hexDigest blake3 x), z ∈ S)
    (hY : ∀ z ∈ rehashStreams blake3 marks (hexDigest blake3 y), z ∈ S)
    (hEq :
      rehashAll blake3 marks (hexDigest blake3 x) = rehashAll blake3 marks (hexDigest blake3 y)) :
    hexDigest blake3 x = hexDigest blake3 y := by
  induction marks generalizing x y with
  | nil => exact hEq
  | cons more rest ih =>
    have hStep :=
      ih (framed (utf8 (hexDigest blake3 x)) ++ more) (framed (utf8 (hexDigest blake3 y)) ++ more)
        (fun z hZ => hX z (mem_cons_of_mem _ hZ)) (fun z hZ => hY z (mem_cons_of_mem _ hZ)) hEq
    have hStreams := stream_eq_of_hexDigest hInj (hX _ mem_cons_self) (hY _ mem_cons_self) hStep
    have hFits : ∀ w : Bytes, (utf8 (hexDigest blake3 w)).length < 256 ^ 8 := by
      intro w
      rw [length_hexDigest]
      decide
    exact utf8_injective (delimits_framed _ (hFits x) _ (hFits y) _ _ hStreams)

theorem boundKey_hashes (r : ChatRequest) :
    (boundKey blake3 serde policy context routeNamespace r).exactHash =
      rehashAll blake3 (keyMarks policy context routeNamespace)
        (requestKey serde blake3 r).exactHash ∧
    (boundKey blake3 serde policy context routeNamespace r).paramsHash =
      rehashAll blake3 (keyMarks policy context routeNamespace)
        (requestKey serde blake3 r).paramsHash := by
  let bound :=
    if context.canaryNamespace.str ≠ "" ∨ routeNamespace.isSome then
      [hashField context.canaryNamespace ++ (routeNamespace.map hashField).getD []]
    else []
  have hMarks :
      ∀ key : RequestKey,
        (bindKey blake3 context routeNamespace key).exactHash =
            rehashAll blake3 bound key.exactHash ∧
          (bindKey blake3 context routeNamespace key).paramsHash =
            rehashAll blake3 bound key.paramsHash := by
    intro key
    simp only [bindKey, bound]
    split <;> exact ⟨rfl, rfl⟩
  unfold boundKey
  rw [(hMarks _).1, (hMarks _).2]
  rcases policy with ⟨_, ttl, fold⟩
  cases ttl <;> cases fold <;> exact ⟨rfl, rfl⟩

theorem mem_keyStreams {r : ChatRequest} {z : Bytes}
    (hZ :
      z ∈ rehashStreams blake3 (keyMarks policy context routeNamespace)
            (requestKey serde blake3 r).exactHash ∨
        z ∈ rehashStreams blake3 (keyMarks policy context routeNamespace)
            (requestKey serde blake3 r).paramsHash) :
    z ∈ keyStreams blake3 serde policy context routeNamespace r := by
  simp only [keyStreams, mem_append]
  exact .inr hZ

/-
  Different messages have different exact hashes.  Different parameters have different hashes of
  either kind, unless an untagged field runs into the ones beside it.  Neither is lost to a policy,
  a tenant's context, or a route.
-/
theorem requestKey_separates (blake3 : Bytes → ByteArr 32) (serde : Serde) (policy : CachePolicy)
    (context : CanaryCacheContext) (routeNamespace : Option Text) (a b : ChatRequest)
    (hPrints : Prints serde a b) (hA : Fits a) (hB : Fits b)
    (hInj :
      Set.InjOn blake3
        {x |
          x ∈ keyStreams blake3 serde policy context routeNamespace a ∨
            x ∈ keyStreams blake3 serde policy context routeNamespace b}) :
    (a.messages.map messageIdentity ≠ b.messages.map messageIdentity →
      (requestKey serde blake3 a).exactHash ≠ (requestKey serde blake3 b).exactHash ∧
        (boundKey blake3 serde policy context routeNamespace a).exactHash ≠
          (boundKey blake3 serde policy context routeNamespace b).exactHash) ∧
    (runsTogether serde blake3 a b = false →
      a.settings ≠ b.settings →
      (requestKey serde blake3 a).exactHash ≠ (requestKey serde blake3 b).exactHash ∧
        (requestKey serde blake3 a).paramsHash ≠ (requestKey serde blake3 b).paramsHash ∧
        (boundKey blake3 serde policy context routeNamespace a).exactHash ≠
          (boundKey blake3 serde policy context routeNamespace b).exactHash ∧
        (boundKey blake3 serde policy context routeNamespace a).paramsHash ≠
          (boundKey blake3 serde policy context routeNamespace b).paramsHash) := by
  have hParams :
      (requestKey serde blake3 a).paramsHash = (requestKey serde blake3 b).paramsHash →
        paramsStream serde blake3 a = paramsStream serde blake3 b :=
    stream_eq_of_hexDigest hInj (.inl (by simp [keyStreams]))
      (.inr (by simp [keyStreams]))
  have hExact :
      (requestKey serde blake3 a).exactHash = (requestKey serde blake3 b).exactHash →
        (requestKey serde blake3 a).paramsHash = (requestKey serde blake3 b).paramsHash ∧
          a.messages.map messageIdentity = b.messages.map messageIdentity := by
    intro hEq
    exact exactStream_inj hPrints
      (stream_eq_of_hexDigest hInj (.inl (by simp [keyStreams, requestKey]))
        (.inr (by simp [keyStreams, requestKey])) hEq)
  have hBoundExact :
      (boundKey blake3 serde policy context routeNamespace a).exactHash =
          (boundKey blake3 serde policy context routeNamespace b).exactHash →
        (requestKey serde blake3 a).exactHash = (requestKey serde blake3 b).exactHash := by
    rw [(boundKey_hashes serde policy context routeNamespace a).1,
      (boundKey_hashes serde policy context routeNamespace b).1]
    exact rehashAll_inj hInj _ _ _ (fun _ hZ => .inl (mem_keyStreams _ _ _ _ (.inl hZ)))
      (fun _ hZ => .inr (mem_keyStreams _ _ _ _ (.inl hZ)))
  have hBoundParams :
      (boundKey blake3 serde policy context routeNamespace a).paramsHash =
          (boundKey blake3 serde policy context routeNamespace b).paramsHash →
        (requestKey serde blake3 a).paramsHash = (requestKey serde blake3 b).paramsHash := by
    rw [(boundKey_hashes serde policy context routeNamespace a).2,
      (boundKey_hashes serde policy context routeNamespace b).2]
    exact rehashAll_inj hInj _ _ _ (fun _ hZ => .inl (mem_keyStreams _ _ _ _ (.inr hZ)))
      (fun _ hZ => .inr (mem_keyStreams _ _ _ _ (.inr hZ)))
  refine ⟨?_, ?_⟩
  · intro hDiffer
    have hRaw := fun hEq => hDiffer (hExact hEq).2
    exact ⟨hRaw, fun hEq => hRaw (hBoundExact hEq)⟩
  · intro hApart hDiffer
    have hRaw : (requestKey serde blake3 a).paramsHash ≠ (requestKey serde blake3 b).paramsHash :=
      fun hEq => hDiffer (paramsStream_inj hPrints hA hB hApart (hParams hEq))
    exact ⟨fun hEq => hRaw (hExact hEq).1, hRaw, fun hEq => hRaw (hExact (hBoundExact hEq)).1,
      fun hEq => hRaw (hBoundParams hEq)⟩

end Keys

--
-- Examples
--

/- A hash that tells the streams below apart. -/
def polynomialHash (stream : Bytes) : ByteArr 32 where
  bytes := leBytes 32 (stream.foldl (fun sum b => (sum * 257 + b.toNat) % (2 ^ 255 - 19)) 7)
  size := length_leBytes 32 _

/- Printers for requests with nothing to print. -/
def emptySerde : Serde where
  str := fun t => t
  tool := fun _ => ⟨"\x7b\x7d", by decide⟩
  parts := fun _ => ⟨"[]", by decide⟩
  toolCalls := fun _ => ⟨"[]", by decide⟩
  canonicalJson := fun _ => ⟨"\x7b\x7d", by decide⟩

def bareRequest : ChatRequest where
  model := ⟨"gpt-4o", by decide⟩

/- A limit of zero tokens, and half of the probability mass. -/
def zeroTokens : ChatRequest :=
  { bareRequest with maxTokens := some 0 }

def halfTopP : ChatRequest :=
  { bareRequest with topP := some 0x3F000000 }

/- A system prompt that spells out the other request's field. -/
def spelledTopP : ChatRequest :=
  { bareRequest with
    system := some ⟨"top_p=\x00\x00\x00?", by decide⟩ }

/-
  No limit shares its key with a limit of zero, and a sampling
  parameter with a prompt that spells it out.
-/
theorem untagged_share_keys :
    bareRequest.maxTokens ≠ zeroTokens.maxTokens ∧
      requestKey emptySerde polynomialHash bareRequest =
        requestKey emptySerde polynomialHash zeroTokens ∧
      halfTopP.topP ≠ spelledTopP.topP ∧
      requestKey emptySerde polynomialHash halfTopP =
        requestKey emptySerde polynomialHash spelledTopP := by
  decide +kernel

def briefRequest : ChatRequest :=
  { halfTopP with
    system := some ⟨"Be brief.", by decide⟩
    messages := [⟨.user, .text ⟨"yes", by decide⟩, none, none⟩] }

def briefPolicy : CachePolicy :=
  { ttlHours := some 24 }

def briefContext : CanaryCacheContext :=
  ⟨⟨"canary", by decide⟩, false⟩

theorem emptySerde_prints :
    Prints emptySerde bareRequest briefRequest where
  tools := by
    rintro t (hT | hT) <;> cases hT
  toolsOpen := by
    rintro t (hT | hT) <;> cases hT
  names := by
    rintro n (hN | hN) <;> cases hN
  parts := by
    rintro parts ⟨m, hM, hParts⟩
    simp only [bareRequest, briefRequest, nil_append, mem_singleton] at hM
    subst hM
    cases hParts
  calls := by
    rintro calls ⟨m, hM, hCalls⟩
    simp only [bareRequest, briefRequest, nil_append, mem_singleton] at hM
    subst hM
    cases hCalls
  callsSome := by
    have hText : utf8 "[]" ≠ [] := by decide
    exact fun _ _ => hText
  values := by
    have hOnly :
        ∀ v,
          (bareRequest.responseFormat = some v ∨
            briefRequest.responseFormat = some v ∨
            v = .object bareRequest.extra ∨
            v = .object briefRequest.extra) →
          v = .object [] := by
      rintro v (h | h | h | h)
      · cases h
      · cases h
      · exact h
      · exact h
    intro v hV w hW _
    rw [hOnly v hV, hOnly w hW]

theorem polynomialHash_injOn :
    Set.InjOn polynomialHash
      {x |
        x ∈ keyStreams polynomialHash emptySerde briefPolicy briefContext none bareRequest ∨
          x ∈ keyStreams polynomialHash emptySerde briefPolicy
            briefContext none briefRequest} := by
  have hAll :
      ∀ x ∈ keyStreams polynomialHash emptySerde briefPolicy briefContext none bareRequest ++
            keyStreams polynomialHash emptySerde briefPolicy briefContext none briefRequest,
        ∀ y ∈ keyStreams polynomialHash emptySerde briefPolicy briefContext none bareRequest ++
              keyStreams polynomialHash emptySerde briefPolicy briefContext none briefRequest,
          polynomialHash x = polynomialHash y → x = y := by
    decide +kernel
  intro x hX y hY hEq
  exact hAll x (mem_append.mpr hX) y (mem_append.mpr hY) hEq

theorem briefRequest_separated :
    (boundKey polynomialHash emptySerde briefPolicy briefContext none bareRequest).exactHash ≠
      (boundKey polynomialHash emptySerde briefPolicy briefContext none briefRequest).exactHash ∧
    (boundKey polynomialHash emptySerde briefPolicy briefContext none bareRequest).paramsHash ≠
      (boundKey polynomialHash emptySerde briefPolicy
        briefContext none briefRequest).paramsHash := by
  have hApart : runsTogether emptySerde polynomialHash bareRequest briefRequest = false := by
    decide
  have hDiffer : bareRequest.settings ≠ briefRequest.settings := by
    intro hEq
    cases congrArg Settings.topP hEq
  have hKeys :=
    (requestKey_separates polynomialHash emptySerde briefPolicy
      briefContext none bareRequest briefRequest emptySerde_prints ⟨by decide, by decide⟩
      ⟨by decide, by decide⟩ polynomialHash_injOn).2 hApart
      hDiffer
  exact hKeys.2.2

end Tracelane.Cache
