import Mathlib.Data.List.Chain
import Whiteboard.Broadcast.Interleaving
import Whiteboard.Proofs.Entries
import Whiteboard.Proofs.Scalar.Double

/-!
# Clients that follow

However joining, leaving, telling and changes of the board interleave, a client that is taken in has
heard of every summary from its first document on, and of the latest one once nothing is under way
(`Room.follows_of_run`). That is, unless it was passed over: a summary later than its document was
sent before it was taken in.
-/

namespace Whiteboard

namespace Hub

variable {α μ : Type}

/-- Each client that is reached gets one message, and stays. -/
theorem heard_of_broadcast {h : Hub} (hnodup : h.clients.Nodup) (reaches : String → Bool)
    (message : μ) (client : String) :
    ((h.broadcast reaches message).1.filter (·.1 == client)).map (·.2)
      = if client ∈ (h.broadcast reaches message).2.clients then [message] else [] := by
  have hreached : (h.clients.filter reaches).Nodup := hnodup.filter reaches
  change (((h.clients.filter reaches).map (·, message)).filter (·.1 == client)).map (·.2) = _
  rw [List.filter_map, List.map_map]
  change ((h.clients.filter reaches).filter (· == client)).map (fun _ => message) = _
  rw [List.filter_beq, List.map_replicate]
  change _ = if client ∈ h.clients.filter reaches then _ else _
  split
  · next hmem => rw [List.count_eq_one_of_mem hreached hmem, List.replicate_one]
  · next hmem => rw [List.count_eq_zero_of_not_mem hmem, List.replicate_zero]

theorem nodup_register {h : Hub} (hnodup : h.clients.Nodup) (client : String) :
    (h.register client).clients.Nodup := by
  unfold register
  split
  · exact hnodup
  · next hnew =>
    rw [Bool.not_eq_true, List.contains_eq_mem, decide_eq_false_iff_not] at hnew
    exact List.nodup_append'.mpr ⟨hnodup, List.nodup_singleton client, by simpa using hnew⟩

theorem mem_register {h : Hub} {client other : String} :
    other ∈ (h.register client).clients ↔ other ∈ h.clients ∨ other = client := by
  unfold register
  split
  · next hmem =>
    have hmem : client ∈ h.clients := by simpa using hmem
    exact ⟨.inl, fun h => h.elim id fun heq => heq ▸ hmem⟩
  · simp

theorem mem_disconnect {h : Hub} {client other : String} :
    other ∈ (h.disconnect client).clients ↔ other ∈ h.clients ∧ other ≠ client := by
  simp [disconnect]

/-- What a client is told when it says something has the current number. -/
theorem revision_reply? {h : Hub} {said : String} {b : Board α} {n : Notice α}
    (hn : h.reply? said b = some n) : n.revision = h.revision := by
  unfold reply? at hn
  split at hn
  · cases hn
    rfl
  · split at hn
    · cases hn
      rfl
    · contradiction

end Hub

namespace Room

variable {α : Type}

@[simp]
theorem inbox_deliver (ds : Deliveries (Notice α)) (r : Room α) (client : String) :
    (r.deliver ds).inbox client = r.inbox client ++ (ds.filter (·.1 == client)).map (·.2) := by
  rw [deliver, inbox, List.filter_append, List.map_append, inbox]

theorem inbox_deliver_of_ne {client other : String} (h : other ≠ client) (ns : List (Notice α))
    (r : Room α) : (r.deliver (ns.map (other, ·))).inbox client = r.inbox client := by
  have hnone : (ns.map (other, ·)).filter (·.1 == client) = [] := by
    rw [List.filter_map]
    simp [Function.comp_def, h]
  rw [inbox_deliver, hnone, List.map_nil, List.append_nil]

theorem inbox_deliver_self (client : String) (ns : List (Notice α)) (r : Room α) :
    (r.deliver (ns.map (client, ·))).inbox client = r.inbox client ++ ns := by
  have hall : (ns.map (client, ·)).filter (·.1 == client) = ns.map (client, ·) := by
    rw [List.filter_map]
    simp [Function.comp_def]
  rw [inbox_deliver, hall, List.map_map]
  exact congrArg _ (List.map_id _)

/-! ## Who follows -/

/-- Whether the teller has counted up for a summary that is not sent yet. -/
def counting (r : Room α) : Bool :=
  match r.telling with
  | .counted | .composed _ => true
  | _ => false

/-- A number as late as can be: the current one, or the one before it as long as the summary with
the current one is not sent. -/
def IsLatest (r : Room α) (k : Nat) : Prop :=
  k = r.hub.revision ∨ (r.counting = true ∧ k + 1 = r.hub.revision)

/-- Nothing is skipped from one notice to the next. -/
def Next (n n' : Notice α) : Prop := n'.revision = n.revision ∨ n'.revision = n.revision + 1

/-- What a client was sent skips nothing, and tells of the latest. -/
structure Follows (r : Room α) (client : String) : Prop where
  steps : (r.inbox client).IsChain Next
  last : ∃ n, (r.inbox client).getLast? = some n ∧ r.IsLatest n.revision
  news : ∃ n, r.lastNews? client = some n ∧ r.IsLatest n.revision

/-- What is known of a client that is not passed over. -/
structure InStep (r : Room α) (client : String) : Prop where
  accepted : Entries.get? client r.joining = some .accepted → r.inbox client = []
  informed : Entries.get? client r.joining = some .informed →
    ∃ n, r.inbox client = [n] ∧ n.isNews = true ∧ r.IsLatest n.revision
  joined : client ∈ r.hub.clients → Entries.get? client r.joining = none ∧ r.Follows client

/-- Nobody is taken in twice, and a summary that is not sent yet has the current number. -/
structure Sound (r : Room α) : Prop where
  nodup : r.hub.clients.Nodup
  composed : ∀ n, r.telling = .composed n → n.revision = r.hub.revision ∧ n.isNews = true

/-- Whether a step passes a client over: a summary that is later than what the client was sent goes
out before the client is taken in. -/
def passesOver (client : String) (r : Room α) : Move α → Bool
  | .send _ =>
    Entries.get? client r.joining = some .informed &&
      (r.inbox client).any fun n => n.revision < r.hub.revision
  | _ => false

/-- Whether a client is passed over along some steps. -/
def passedOver (client : String) : Room α → List (Move α) → Bool
  | _, [] => false
  | r, m :: ms => r.passesOver client m || (r.move? m).any fun r => passedOver client r ms

variable {r r' : Room α} {client : String}

theorem Follows.congr (h : r.Follows client) (hinbox : r'.inbox client = r.inbox client)
    (hlatest : ∀ k, r.IsLatest k → r'.IsLatest k) : r'.Follows client := by
  obtain ⟨hsteps, ⟨n, hn, hlast⟩, m, hm, hnews⟩ := h
  refine ⟨hinbox ▸ hsteps, ⟨n, hinbox ▸ hn, hlatest _ hlast⟩, m, ?_, hlatest _ hnews⟩
  rw [lastNews?, hinbox]
  exact hm

/-- A step that leaves a client alone keeps it in step, if what was the latest is so still. -/
theorem InStep.congr (h : r.InStep client) (hinbox : r'.inbox client = r.inbox client)
    (hjoining : Entries.get? client r'.joining = Entries.get? client r.joining)
    (hclients : client ∈ r'.hub.clients → client ∈ r.hub.clients)
    (hlatest : ∀ k, r.IsLatest k → r'.IsLatest k) : r'.InStep client := by
  refine ⟨fun hj => ?_, fun hj => ?_, fun hc => ?_⟩
  · rw [hinbox]
    exact h.accepted (hjoining ▸ hj)
  · obtain ⟨n, hn, hisNews, hlast⟩ := h.informed (hjoining ▸ hj)
    exact ⟨n, hinbox.trans hn, hisNews, hlatest _ hlast⟩
  · obtain ⟨hnone, hfollows⟩ := h.joined (hclients hc)
    exact ⟨hjoining.trans hnone, hfollows.congr hinbox hlatest⟩

/-- Another notice with the current number does not disturb the order. -/
theorem Follows.hear (h : r.Follows client) {n : Notice α} (hn : n.revision = r.hub.revision)
    (hinbox : r'.inbox client = r.inbox client ++ [n])
    (hnews : n.isNews = true ∨ ∀ k, r.IsLatest k → r'.IsLatest k)
    (hrevision : r'.hub.revision = r.hub.revision) : r'.Follows client := by
  obtain ⟨hsteps, ⟨l, hl, hlast⟩, m, hm, hlatest⟩ := h
  have hcurrent : r'.IsLatest n.revision := .inl (hn.trans hrevision.symm)
  have hnext : Next l n := by
    rcases hlast with heq | ⟨-, heq⟩
    · exact .inl (hn.trans heq.symm)
    · exact .inr (hn.trans heq.symm)
  refine ⟨?_, ⟨n, by rw [hinbox, List.getLast?_concat], hcurrent⟩, ?_⟩
  · rw [hinbox, List.isChain_append]
    refine ⟨hsteps, .singleton n, fun l' hl' n' hn' => ?_⟩
    rw [hl, Option.mem_some_iff] at hl'
    rw [List.head?_cons, Option.mem_some_iff] at hn'
    rwa [← hl', ← hn']
  · rw [lastNews?, hinbox, List.filter_append]
    cases hisNews : n.isNews with
    | true => exact ⟨n, by simp [hisNews], hcurrent⟩
    | false =>
      have hnone : [n].filter Notice.isNews = [] := by simp [hisNews]
      rw [hnone, List.append_nil]
      exact ⟨m, hm, (hnews.resolve_left (by simp [hisNews])) _ hlatest⟩

/-! ## Steps -/

variable {m : Move α}

theorem Sound.move (h : r.Sound) (hm : r.move? m = some r') : r'.Sound := by
  cases m with
  | change b =>
    cases hm
    exact ⟨h.nodup, h.composed⟩
  | accept c =>
    rw [move?] at hm
    split at hm <;> cases hm
    exact ⟨h.nodup, h.composed⟩
  | inform c =>
    rw [move?] at hm
    split at hm <;> cases hm
    exact ⟨h.nodup, h.composed⟩
  | register c =>
    rw [move?] at hm
    split at hm <;> cases hm
    refine ⟨Hub.nodup_register h.nodup c, fun n hn => ?_⟩
    have hsame : (r.hub.register c).revision = r.hub.revision := by
      unfold Hub.register
      split <;> rfl
    rw [hsame]
    exact h.composed n hn
  | leave c =>
    cases hm
    exact ⟨h.nodup.filter _, h.composed⟩
  | say c said =>
    rw [move?] at hm
    split at hm <;> cases hm
    exact ⟨h.nodup, h.composed⟩
  | wake =>
    rw [move?] at hm
    split at hm
    · split at hm <;> cases hm
      exact ⟨h.nodup, nofun⟩
    · contradiction
  | count =>
    rw [move?] at hm
    split at hm <;> cases hm
    exact ⟨h.nodup, nofun⟩
  | compose =>
    rw [move?] at hm
    split at hm <;> cases hm
    refine ⟨h.nodup, fun n hn => ?_⟩
    cases hn
    exact ⟨rfl, rfl⟩
  | send reaches =>
    rw [move?] at hm
    split at hm <;> cases hm
    exact ⟨h.nodup.filter _, nofun⟩

/-- A client that accepts was not heard of. -/
theorem InStep.accept (h : r.InStep client) {c : String} (hm : r.move? (.accept c) = some r') :
    r'.InStep client := by
  rw [move?] at hm
  split at hm
  · next hnew =>
    cases hm
    by_cases hc : c = client
    · subst hc
      simp only [isNew, Bool.and_eq_true, Bool.not_eq_true', List.isEmpty_iff,
        List.contains_eq_mem, decide_eq_false_iff_not] at hnew
      have haccepted : Entries.get? c (Entries.set c .accepted r.joining) = some .accepted := by
        rw [Entries.get?_set, if_pos rfl]
      refine ⟨fun _ => hnew.2, fun hj => ?_, fun hj => absurd hj hnew.1.1⟩
      rw [haccepted] at hj
      contradiction
    · refine h.congr rfl ?_ id fun _ => id
      rw [Entries.get?_set, if_neg hc]
  · contradiction

/-- A client that is informed has the document as it is. -/
theorem InStep.inform (h : r.InStep client) {c : String} (hm : r.move? (.inform c) = some r') :
    r'.InStep client := by
  rw [move?] at hm
  split at hm
  · next haccepted =>
    cases hm
    by_cases hc : c = client
    · subst hc
      have hinformed : Entries.get? c (Entries.set c .informed r.joining) = some .informed := by
        rw [Entries.get?_set, if_pos rfl]
      refine ⟨fun hj => ?_, fun _ => ?_, fun hj => ?_⟩
      · exact absurd (hinformed.symm.trans hj) (by decide)
      · refine ⟨r.hub.snapshot r.board, ?_, rfl, .inl rfl⟩
        refine (inbox_deliver_self c [r.hub.snapshot r.board] _).trans ?_
        exact congrArg (· ++ _) (h.accepted haccepted)
      · exact absurd ((h.joined hj).1.symm.trans haccepted) (by decide)
    · refine h.congr (inbox_deliver_of_ne hc [r.hub.snapshot r.board] _) ?_ id fun _ => id
      exact (Entries.get?_set ..).trans (if_neg hc)
  · contradiction

/-- A client that is taken in has heard nothing but the document it was informed with. -/
theorem InStep.register (h : r.InStep client) {c : String} (hm : r.move? (.register c) = some r') :
    r'.InStep client := by
  rw [move?] at hm
  split at hm
  · next hinformed =>
    cases hm
    have hrevision : (r.hub.register c).revision = r.hub.revision := by
      unfold Hub.register
      split <;> rfl
    have hlatest : ∀ k, r.IsLatest k → k = (r.hub.register c).revision ∨
        (r.counting = true ∧ k + 1 = (r.hub.register c).revision) := by
      intro k hk
      rwa [hrevision]
    by_cases hc : c = client
    · subst hc
      have hnone : Entries.get? c (Entries.erase c r.joining) = none := by
        rw [Entries.get?_erase, if_pos rfl]
      refine ⟨fun hj => ?_, fun hj => ?_, fun _ => ⟨hnone, ?_⟩⟩
      · exact absurd (hnone.symm.trans hj) (by decide)
      · exact absurd (hnone.symm.trans hj) (by decide)
      · obtain ⟨n, hinbox, hnews, hlast⟩ := h.informed hinformed
        have hsent : r.lastNews? c = some n := by
          rw [lastNews?, hinbox]
          simp [hnews]
        have hfollows : r.Follows c :=
          ⟨hinbox ▸ .singleton n, ⟨n, by rw [hinbox]; rfl, hlast⟩, n, hsent, hlast⟩
        exact hfollows.congr rfl hlatest
    · refine h.congr rfl ((Entries.get?_erase ..).trans (if_neg hc)) (fun hmem => ?_) hlatest
      exact (Hub.mem_register.mp hmem).resolve_right (Ne.symm hc)
  · contradiction

theorem InStep.leave (h : r.InStep client) {c : String} (hm : r.move? (.leave c) = some r') :
    r'.InStep client := by
  cases hm
  by_cases hc : c = client
  · subst hc
    have hnone : Entries.get? c (Entries.erase c r.joining) = none := by
      rw [Entries.get?_erase, if_pos rfl]
    refine ⟨fun hj => ?_, fun hj => ?_, fun hmem => ?_⟩
    · exact absurd (hnone.symm.trans hj) (by decide)
    · exact absurd (hnone.symm.trans hj) (by decide)
    · exact absurd rfl (Hub.mem_disconnect.mp hmem).2
  · refine h.congr rfl ((Entries.get?_erase ..).trans (if_neg hc)) (fun hmem => ?_) fun _ => id
    exact (Hub.mem_disconnect.mp hmem).1

/-- Answers have the current number. -/
theorem InStep.say (h : r.InStep client) {c said : String}
    (hm : r.move? (.say c said) = some r') : r'.InStep client := by
  rw [move?] at hm
  split at hm
  · contradiction
  · next hjoined =>
    cases hm
    by_cases hc : c = client
    · subst hc
      have hnone : Entries.get? c r.joining = none := by
        rw [Bool.or_eq_true, not_or] at hjoined
        simpa [Entries.has] using hjoined.1
      refine ⟨fun hj => ?_, fun hj => ?_, fun hmem => ⟨hnone, ?_⟩⟩
      · exact absurd (hnone.symm.trans hj) (by decide)
      · exact absurd (hnone.symm.trans hj) (by decide)
      · have hfollows := (h.joined hmem).2
        cases hreply : r.hub.reply? said r.board with
        | none =>
          exact hfollows.congr ((inbox_deliver_self c [] r).trans (List.append_nil _)) fun _ => id
        | some n =>
          exact hfollows.hear (Hub.revision_reply? hreply) (inbox_deliver_self c [n] r)
            (.inr fun _ => id) rfl
    · exact h.congr (inbox_deliver_of_ne hc _ r) rfl id fun _ => id

/-- Waking, counting and composing tell nobody anything. -/
theorem InStep.tell (h : r.InStep client)
    (hm : r.move? .wake = some r' ∨ r.move? .count = some r' ∨ r.move? .compose = some r') :
    r'.InStep client := by
  rcases hm with hm | hm | hm
  · rw [move?] at hm
    split at hm
    · next hidle =>
      split at hm <;> cases hm
      refine h.congr rfl rfl id fun k hk => .inl (hk.resolve_right fun hc => ?_)
      simp [counting, hidle] at hc
    · contradiction
  · rw [move?] at hm
    split at hm
    · next hwoken =>
      cases hm
      refine h.congr rfl rfl id fun k hk => .inr ⟨rfl, ?_⟩
      have hk : k = r.hub.revision := hk.resolve_right fun hc => by simp [counting, hwoken] at hc
      exact congrArg (· + 1) hk
    · contradiction
  · rw [move?] at hm
    split at hm
    · next hcounted =>
      cases hm
      refine h.congr rfl rfl id fun k hk => ?_
      rcases hk with hk | ⟨-, hk⟩
      · exact .inl hk
      · exact .inr ⟨rfl, hk⟩
    · contradiction

/-- A summary reaches all that stay; who is joining must not have an older document. -/
theorem InStep.send (h : r.InStep client) (hs : r.Sound) {reaches : String → Bool}
    (hm : r.move? (.send reaches) = some r')
    (hpassed : r.passesOver client (.send reaches) = false) : r'.InStep client := by
  rw [move?] at hm
  split at hm
  · next n hcomposed =>
    obtain ⟨hrevision, hnews⟩ := hs.composed n hcomposed
    have hsent : r' = { r with
        hub := (r.hub.broadcast reaches n).2
        telling := .idle }.deliver (r.hub.broadcast reaches n).1 := by
      cases hm
      rfl
    subst hsent
    have hstays : ∀ {c}, c ∈ (r.hub.broadcast reaches n).2.clients → c ∈ r.hub.clients :=
      fun hc => List.mem_of_mem_filter hc
    have hinbox := inbox_deliver (r.hub.broadcast reaches n).1
      { r with hub := (r.hub.broadcast reaches n).2, telling := .idle } client
    rw [Hub.heard_of_broadcast hs.nodup] at hinbox
    have hapart {j : Joining} (hj : Entries.get? client r.joining = some j) :
        client ∉ (r.hub.broadcast reaches n).2.clients := by
      intro hc
      rw [(h.joined (hstays hc)).1] at hj
      contradiction
    refine ⟨fun hj => ?_, fun hj => ?_, fun hc => ?_⟩
    · rw [hinbox, if_neg (hapart hj), List.append_nil]
      exact h.accepted hj
    · obtain ⟨k, hk, hisNews, hlast⟩ := h.informed hj
      refine ⟨k, ?_, hisNews, .inl ?_⟩
      · rw [hinbox, if_neg (hapart hj), List.append_nil]
        exact hk
      · have hlate : ¬ k.revision < r.hub.revision := by
          have hj : Entries.get? client r.joining = some .informed := hj
          simpa [passesOver, hj, hk] using hpassed
        change k.revision = r.hub.revision
        rcases hlast with heq | ⟨-, heq⟩ <;> omega
    · obtain ⟨hnone, hfollows⟩ := h.joined (hstays hc)
      have hc : client ∈ (r.hub.broadcast reaches n).2.clients := hc
      rw [if_pos hc] at hinbox
      exact ⟨hnone, hfollows.hear hrevision hinbox (.inl hnews) rfl⟩
  · contradiction

theorem InStep.move (h : r.InStep client) (hs : r.Sound) (hm : r.move? m = some r')
    (hpassed : r.passesOver client m = false) : r'.InStep client := by
  cases m with
  | change b =>
    cases hm
    exact h.congr rfl rfl id fun _ => id
  | accept c => exact h.accept hm
  | inform c => exact h.inform hm
  | register c => exact h.register hm
  | leave c => exact h.leave hm
  | say c said => exact h.say hm
  | wake => exact h.tell (.inl hm)
  | count => exact h.tell (.inr (.inl hm))
  | compose => exact h.tell (.inr (.inr hm))
  | send reaches => exact h.send hs hm hpassed

/-! ## Runs -/

variable {ms : List (Move α)}

theorem InStep.run (h : r.InStep client) (hs : r.Sound) (hrun : r.run? ms = some r')
    (hpassed : passedOver client r ms = false) : r'.InStep client := by
  induction ms generalizing r with
  | nil =>
    cases hrun
    exact h
  | cons m ms ih =>
    obtain ⟨r₁, hm, hrun⟩ := Option.bind_eq_some_iff.mp hrun
    rw [passedOver, hm, Bool.or_eq_false_iff] at hpassed
    exact ih (h.move hs hm hpassed.1) (hs.move hm) hrun hpassed.2

/-- In every run, a client that is taken in and was not passed over while it joined has heard of
every summary from its first document on, and of the latest one when nothing is under way. -/
theorem follows_of_run {b : Board α} (hrun : (Room.empty b).run? ms = some r)
    (hclient : client ∈ r.hub.clients)
    (hpassed : passedOver client (Room.empty b) ms = false) :
    (r.isQuiet = true → (r.lastNews? client).map Notice.revision = some r.hub.revision) ∧
      (r.inbox client).IsChain fun n n' =>
        n'.revision = n.revision ∨ n'.revision = n.revision + 1 := by
  have hempty : (Room.empty b).InStep client := ⟨fun _ => rfl, nofun, nofun⟩
  have hsound : (Room.empty b).Sound := ⟨List.nodup_nil, nofun⟩
  obtain ⟨-, hfollows⟩ := (hempty.run hsound hrun hpassed).joined hclient
  refine ⟨fun hquiet => ?_, hfollows.steps⟩
  obtain ⟨n, hnews, hlatest⟩ := hfollows.news
  have hidle : r.counting = false := by
    unfold isQuiet at hquiet
    unfold counting
    cases htelling : r.telling with
    | idle => rfl
    | _ => simp [htelling] at hquiet
  have hcurrent : n.revision = r.hub.revision := hlatest.resolve_right fun hc => by simp [hidle] at hc
  rw [hnews, Option.map_some, hcurrent]

/-- Two clients join while changes are told of; one of them asks for the document in between. -/
theorem follows_of_run_two :
    let b : Board Double := .start .counting [] .initial 50
    let moves : List (Move Double) :=
      [.accept "a", .inform "a", .change b, .wake, .register "a", .count, .change b, .compose,
        .say "a" "sync", .accept "c", .inform "c", .send fun _ => true, .register "c", .wake,
        .say "c" "ping", .count, .compose, .send fun _ => true]
    ∃ r, (Room.empty b).run? moves = some r ∧ "c" ∈ r.hub.clients ∧
      passedOver "c" (Room.empty b) moves = false ∧
      (r.isQuiet = true → (r.lastNews? "c").map Notice.revision = some r.hub.revision) ∧
      (r.inbox "c").IsChain fun n n' =>
        n'.revision = n.revision ∨ n'.revision = n.revision + 1 := by
  intro b moves
  have hclient : "c" ∈ ["a", "c"] := by decide
  have hpassed : passedOver "c" (Room.empty b) moves = false := by decide +kernel
  exact ⟨_, rfl, hclient, hpassed, follows_of_run rfl hclient hpassed⟩

/-- A client that a summary passes over while it joins is taken in and stays behind; and one that
was dropped skips a summary when it asks for the document. -/
theorem exists_client_behind :
    let b : Board Double := .start .counting [] .initial 50
    let late : List (Move Double) :=
      [.accept "a", .inform "a", .change b, .wake, .count, .compose, .send fun _ => true,
        .register "a"]
    let dropped : List (Move Double) :=
      joinMoves "a" ++ .change b :: tellMoves (fun _ => false) ++
        .change b :: tellMoves (fun _ => true) ++ [.say "a" "sync"]
    (∃ r, (Room.empty b).run? late = some r ∧ r.isQuiet = true ∧ r.hub = ⟨["a"], 1⟩ ∧
        (r.lastNews? "a").map Notice.revision = some 0) ∧
      ∃ r, (Room.empty b).run? dropped = some r ∧ r.isQuiet = true ∧ r.hub = ⟨[], 2⟩ ∧
        (r.inbox "a").map Notice.revision = [0, 2] :=
  ⟨⟨_, rfl, rfl, rfl, rfl⟩, _, rfl, rfl, rfl, rfl⟩

/-! ## Nothing in between -/

/-- Joining without anything in between is what the hub does at once. -/
theorem run?_joinMoves (hnew : r.isNew client = true) {reaches : String → Bool}
    (hreaches : reaches client = true) :
    ∃ r' sent, r.run? (joinMoves client) = some r' ∧
      r.hub.connect? reaches client r.board = some (sent, r'.hub) ∧ r'.sent = r.sent ++ sent := by
  have hget (j : Joining) (es : Entries Joining) :
      Entries.get? client (Entries.set client j es) = some j := by
    rw [Entries.get?_set, if_pos rfl]
  let accepted : Room α := { r with joining := Entries.set client .accepted r.joining }
  let informed : Room α :=
    { r with joining := Entries.set client .informed accepted.joining }.deliver
      [(client, r.hub.snapshot r.board)]
  let joined : Room α :=
    { informed with
      hub := r.hub.register client
      joining := Entries.erase client informed.joining }
  have haccept : r.move? (.accept client) = some accepted := if_pos hnew
  have hinform : accepted.move? (.inform client) = some informed := if_pos (hget ..)
  have hregister : informed.move? (.register client) = some joined := if_pos (hget ..)
  refine ⟨joined, [(client, r.hub.snapshot r.board)], ?_, if_pos hreaches, rfl⟩
  simp only [joinMoves, run?, haccept, hinform, hregister, Option.bind_some]

/-- Telling without anything in between is what the hub does at once. -/
theorem run?_tellMoves (hidle : r.telling = .idle) (hpending : r.pending = true)
    (reaches : String → Bool) :
    r.run? (tellMoves reaches) = some ({ r with
      pending := false
      hub := (r.hub.notify reaches r.board).2 }.deliver (r.hub.notify reaches r.board).1) := by
  have hwake : r.move? .wake = some { r with pending := false, telling := .woken } := by
    rw [move?, hidle]
    exact if_pos hpending
  simp only [tellMoves, run?, hwake, Option.bind_some]
  rw [hidle]
  rfl

end Room

end Whiteboard
