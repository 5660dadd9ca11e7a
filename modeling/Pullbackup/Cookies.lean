import Pullbackup.Session
import Pullbackup.Library.Text
import Mathlib.Data.List.Dedup
import Mathlib.Data.List.Induction

/- http_auth.py and api/auth.py: the session that the middleware reads from a Cookie
   header, and the one that a logout with the same header ends. -/
namespace Pullbackup
open Text KeyedTable ExpiryQueue History ExpiringStore

def sessionCookie : String := "pullbackup_session"

/-- _cookie_value: the first part that is spelled name=. -/
def cookieValue (header name : String) : String := first (split ';' header)
where
  first : List String → String
    | [] => ""
    | part :: parts =>
      match partition '=' (strip part) with
      | (key, separator, value) =>
        if separator ∧ key = name then stripBy (· = '"') (strip value) else first parts

def octalDigit (most c : Char) : Bool := '0' ≤ c && c ≤ most

/-- The escapes of http.cookies._unquote: three octal digits, or any one character but a
    newline. -/
def unescape : List Char → List Char
  | '\\' :: a :: b :: c :: rest =>
    if octalDigit '3' a && octalDigit '7' b && octalDigit '7' c then
      Char.ofNat (64 * (a.toNat - 48) + 8 * (b.toNat - 48) + (c.toNat - 48)) :: unescape rest
    else if a = '\n' then '\\' :: unescape (a :: b :: c :: rest)
    else a :: unescape (b :: c :: rest)
  | '\\' :: a :: rest => if a = '\n' then '\\' :: a :: unescape rest else a :: unescape rest
  | c :: rest => c :: unescape rest
  | [] => []

/-- Only a text in a pair of quotes has any to lose. -/
def unquote (value : String) : String :=
  match value.toList with
  | '"' :: rest => if rest.getLast? = some '"' then String.ofList (unescape rest.dropLast) else value
  | _ => value

/-- A chunk as the framework's cookie_parser reads it. -/
def chunkPair (chunk : String) : String × String :=
  match partition '=' chunk with
  | (key, true, value) => (strip key, strip value)
  | (_, false, _) => ("", strip chunk)

/-- request.cookies: a later duplicate overwrites an earlier one. -/
def cookieParser (header : String) : String → Option String :=
  (split ';' header).foldl (fun cookies chunk =>
    match chunkPair chunk with
    | (key, value) =>
      if key = "" ∧ value = "" then cookies
      else Function.update cookies key (some (unquote value))) fun _ => none

def unauthenticatedPaths : List String :=
  ["/api/system/health", "/api/auth/login", "/api/auth/logout"]

def shellPaths : List String := ["/", "/login", "/favicon.svg"]

def shellPrefixes : List String := ["/tasks", "/sources", "/runs"]

def isPublicShell (path : String) : Bool :=
  shellPaths.contains path ||
    shellPrefixes.any (fun shell => path = shell || (shell ++ "/").toList.isPrefixOf path.toList) ||
    "/assets/".toList.isPrefixOf path.toList

structure HttpRequest where
  path : String
  authorization : String
  cookie : String
  browserSubresource : Bool

inductive AuthAnswer where
  | served
  | unconfigured
  | refused (challenged : Bool)
  deriving DecidableEq, Repr

def httpBasicAuthMiddleware (signer : SessionSigner) (st : SessionSettings) (configured : Bool)
    (authorized : String → Bool) (revoked : ExpiringStore Bool) (request : HttpRequest) (now : ℚ) :
    ExpiringStore Bool × AuthAnswer :=
  if unauthenticatedPaths.contains request.path || isPublicShell request.path then
    (revoked, .served)
  else if configured = false then (revoked, .unconfigured)
  else
    match sessionIsValid signer st revoked (cookieValue request.cookie sessionCookie) now with
    | (revoked, true) => (revoked, .served)
    | (revoked, false) =>
      (revoked, if authorized request.authorization then .served
        else .refused !request.browserSubresource)

def Sessions.logout (signer : SessionSigner) (st : SessionSettings) (s : Sessions)
    (header : String) (now : ℚ) : Sessions :=
  let token := (cookieParser header sessionCookie).getD ""
  if token = "" then { s with clock := now } else s.next signer st (.revoke token now)

def Admits (signer : SessionSigner) (st : SessionSettings) (s : Sessions) (header : String)
    (now : ℚ) : Prop :=
  (sessionIsValid signer st s.revoked (cookieValue header sessionCookie) now).2 = true

def SessionStep (signer : SessionSigner) (st : SessionSettings) (s : Sessions) (op : SessionOp)
    (t : Sessions) : Prop :=
  s.clock ≤ op.now ∧ t = s.next signer st op

/-- A logout with the header ends what the middleware reads from it: whatever happens next, no
    later request with the header is accepted, as long as fewer sessions than the store has room
    for have been logged out since. -/
def LogoutEnds (signer : SessionSigner) (st : SessionSettings) (s : Sessions) (header : String)
    (now : ℚ) : Prop :=
  Admits signer st s header now → ∀ after t,
    Trace (SessionStep signer st) { s.logout signer st header now with revocations := [] } after t →
    ((t.revocations.map Prod.fst).dedup.length : Int) < st.authStoreMaxEntries →
    ∀ later, t.clock ≤ later → ¬ Admits signer st t header later

def spelled (name part : String) : Option String :=
  match partition '=' (strip part) with
  | (key, separator, value) => if separator ∧ key = name then some (strip value) else none

def named (name chunk : String) : Option String :=
  match chunkPair chunk with
  | (key, value) => if key = name then some value else none

def firstCookie (name header : String) : Option String :=
  (split ';' header).findSome? (spelled name)

def lastCookie (name header : String) : Option String :=
  (split ';' header).reverse.findSome? (named name)

section Parsers
variable {header name part value : String}

theorem cookieValue_eq (header name : String) :
    cookieValue header name = ((firstCookie name header).map (stripBy (· = '"'))).getD "" := by
  unfold cookieValue firstCookie
  induction split ';' header with
  | nil => rfl
  | cons part parts ih =>
    unfold cookieValue.first
    rw [List.findSome?_cons]
    cases cut : partition '=' (strip part) with
    | mk key rest =>
      obtain ⟨separator, value⟩ := rest
      by_cases here : separator = true ∧ key = name
      · simp [spelled, cut, here]
      · simpa [spelled, cut, here] using ih

theorem cookieParser_eq (nonblank : name ≠ "") (header : String) :
    cookieParser header name = (lastCookie name header).map unquote := by
  unfold cookieParser lastCookie
  induction split ';' header using List.reverseRecOn with
  | nil => rfl
  | append_singleton chunks chunk ih =>
    rw [List.foldl_append, List.reverse_append, List.foldl_cons, List.foldl_nil,
      List.reverse_singleton, List.singleton_append, List.findSome?_cons]
    cases cut : chunkPair chunk with
    | mk key value =>
      by_cases here : key = name
      · subst here
        simp [named, cut, nonblank]
      · simp only [named, cut, if_neg here]
        split
        · exact ih
        · rw [Function.update_of_ne (Ne.symm here)]
          exact ih

/-- Every part that _cookie_value takes is one that the framework takes too. -/
theorem named_of_spelled (trimmed : strip name = name) (found : spelled name part = some value) :
    named name part = some value := by
  unfold spelled at found
  cases cut : partition '=' (strip part) with
  | mk key rest =>
    obtain ⟨separator, text⟩ := rest
    rw [cut] at found
    by_cases here : separator = true ∧ key = name
    · obtain ⟨rfl, rfl⟩ := here
      obtain ⟨key', text', whole, sameKey, sameText⟩ := partition_strip (by decide) cut
      simp only [true_and, if_true, Option.some.injEq] at found
      simp [named, chunkPair, whole, sameKey, sameText, trimmed, found]
    · simp [here] at found

end Parsers

instance {signer : SessionSigner} {st : SessionSettings} {s : Sessions} {header : String} {now : ℚ} :
    Decidable (Admits signer st s header now) := inferInstanceAs (Decidable (_ = true))

/-- Where the header's first cookie that is spelled name= carries an accepted session, its last
    cookie of the name carries the same, and is accepted. -/
def SameSession (signer : SessionSigner) (st : SessionSettings) (s : Sessions) (header : String)
    (now : ℚ) : Prop :=
  ∀ first, firstCookie sessionCookie header = some first →
    (sessionIsValid signer st s.revoked (stripBy (· = '"') first) now).2 = true →
    ∃ last, lastCookie sessionCookie header = some last ∧
      (sessionIsValid signer st s.revoked (unquote last) now).2 = true ∧
      (verifiedSession signer (unquote last)).map Prod.fst =
        (verifiedSession signer (stripBy (· = '"') first)).map Prod.fst

/-- A session is on record until an instant or later, and whoever stands behind it has been
    logged out since. -/
def OnRecord (sid : String) (due : ℚ) (s : Sessions) : Prop :=
  ∃ e, e.key = sid ∧ due ≤ e.expiresAt ∧ e.value = true ∧
    Trails e (s.revocations.map Prod.fst) s.revoked.entries

section Runs
variable {signer : SessionSigner} {st : SessionSettings} {s t : Sessions} {op : SessionOp}
  {header sid token : String} {due now later : ℚ} {store : ExpiringStore Bool}

theorem revoked_plain (st : SessionSettings) (value : Bool) :
    st.revoked.wantsProtection value = false := rfl

theorem revoked_alone (tiered : Tiered st.revoked now store) : store.protectedEntries.rows = [] := by
  apply List.eq_nil_iff_forall_not_mem.mpr
  intro e mem
  have guarded := tiered.guarded e mem
  rw [revoked_plain] at guarded
  cases guarded

theorem get_revoked_iff (tiered : Tiered st.revoked now store) :
    (store.get sid later).2 = some true ↔
      ∃ e ∈ store.rows, e.key = sid ∧ later < e.expiresAt ∧ e.value = true := by
  rw [get_value tiered]
  constructor
  · intro got
    obtain ⟨e, kept, value⟩ := Option.map_eq_some_iff.mp got
    obtain ⟨found, live⟩ := Option.filter_eq_some_iff.mp kept
    obtain ⟨mem, named⟩ := (find_iff tiered).mp found
    exact ⟨e, mem, named, by simpa using live, value⟩
  · rintro ⟨e, mem, named, live, value⟩
    rw [(find_iff tiered).mpr ⟨mem, named⟩]
    simp [live, value]

theorem swept_set (room : 2 ≤ st.authStoreMaxEntries) (lives : 0 < st.revoked.ttl)
    (swept : Swept st.revoked s.clock s.revoked) (passed : s.clock ≤ now) (sid : String) :
    Swept st.revoked now ((s.revoked.sweep now).set st.revoked sid true now) := by
  obtain ⟨sound, within⟩ := swept_sweep swept passed
  obtain ⟨again, still⟩ := swept_sweep ⟨now, le_refl now, sound, within⟩ (le_refl now)
  exact ⟨now, le_refl now, write_sound room lives again still sid true,
    write_within room again still⟩

theorem step_swept (room : 2 ≤ st.authStoreMaxEntries) (lives : 0 < st.revoked.ttl)
    (swept : Swept st.revoked s.clock s.revoked) (step : SessionStep signer st s op t) :
    Swept st.revoked t.clock t.revoked := by
  obtain ⟨passed, rfl⟩ := step
  rcases next_cases signer st s op with next | next | ⟨token, sid, issuedAt, -, -, -, next⟩
  · rw [next]
    obtain ⟨last, before, sound, within⟩ := swept
    exact ⟨last, le_trans before passed, sound, within⟩
  · rw [next]
    exact ⟨op.now, le_refl _, swept_sweep swept passed⟩
  · rw [next]
    exact swept_set room lives swept passed sid

theorem trace_swept {start : ℚ} {ops : List SessionOp} (room : 2 ≤ st.authStoreMaxEntries)
    (lives : 0 < st.revoked.ttl) (history : Trace (SessionStep signer st) { clock := start } ops s) :
    Swept st.revoked s.clock s.revoked := by
  refine trace_invariant (fun s => Swept st.revoked s.clock s.revoked)
    (fun s op t => step_swept room lives) history ?_
  obtain ⟨sound, within⟩ := empty_sound st.revoked start 0
  exact ⟨start, le_refl start, sound, within⟩

/-- A call moves a session on record only to the back, or as many sessions as the store has room
    for have been logged out. -/
theorem step_on_record (room : 2 ≤ st.authStoreMaxEntries)
    (swept : Swept st.revoked s.clock s.revoked) (recorded : OnRecord sid due s)
    (step : SessionStep signer st s op t) (early : op.now < due)
    (restarts : due ≤ op.now + st.revoked.ttl) :
    OnRecord sid due t ∨
      st.authStoreMaxEntries ≤ ((t.revocations.map Prod.fst).dedup.length : Int) := by
  obtain ⟨passed, rfl⟩ := step
  obtain ⟨e, named, lasts, value, trails⟩ := recorded
  have stays : Trails e (s.revocations.map Prod.fst) (s.revoked.sweep op.now).entries :=
    trails_dropExpired trails (lt_of_lt_of_le early lasts)
  rcases next_cases signer st s op with next | next | ⟨token, other, issuedAt, -, -, -, next⟩
  · rw [next]
    exact Or.inl ⟨e, named, lasts, value, trails⟩
  · rw [next]
    exact Or.inl ⟨e, named, lasts, value, stays⟩
  · rw [next]
    obtain ⟨sound, within⟩ := swept_sweep swept passed
    have again := sweep_sound sound op.now
    have alone := revoked_alone again.toTiered
    by_cases same : e.key = other
    · left
      subst same
      exact ⟨⟨e.key, op.now + st.revoked.ttl, true⟩, named, restarts, rfl,
        trails_fresh_ordinary room again _ (revoked_plain st true) alone⟩
    · have still : Trails e (s.revocations.map Prod.fst)
          ((s.revoked.sweep op.now).sweep op.now).entries :=
        trails_dropExpired stays (lt_of_lt_of_le early lasts)
      rcases trails_write_ordinary room again still same (revoked_plain st true) alone with
        there | ⟨crowd, distinct, origin, -, full⟩
      · exact Or.inl ⟨e, named, lasts, value, there⟩
      · right
        have inside : crowd.length ≤ (other :: s.revocations.map Prod.fst).dedup.length :=
          distinct.length_le_of_subset fun key mem => List.mem_dedup.mpr (origin mem)
        have cap : st.authStoreMaxEntries ≤ (st.revoked.cap : Int) := by
          simp only [StoreConfig.cap, SessionSettings.revoked]
          omega
        simp only [List.map_cons]
        omega

theorem revocations_grow (step : SessionStep signer st s op t) : s.revocations ⊆ t.revocations := by
  obtain ⟨-, rfl⟩ := step
  rcases next_cases signer st s op with next | next | ⟨token, sid, issuedAt, -, -, -, next⟩
  · rw [next]
    exact List.Subset.refl _
  · rw [next]
    exact List.Subset.refl _
  · rw [next]
    exact List.subset_cons_self _ _

theorem step_clock (step : SessionStep signer st s op t) : t.clock = op.now := by
  obtain ⟨-, rfl⟩ := step
  cases op <;> rfl

theorem trace_on_record (room : 2 ≤ st.authStoreMaxEntries) (lives : 0 < st.revoked.ttl)
    (swept : Swept st.revoked s.clock s.revoked) (recorded : OnRecord sid due s)
    (restarts : due ≤ s.clock + st.revoked.ttl) {ops : List SessionOp}
    (history : Trace (SessionStep signer st) s ops t)
    (few : ((t.revocations.map Prod.fst).dedup.length : Int) < st.authStoreMaxEntries)
    (early : t.clock < due) :
    Swept st.revoked t.clock t.revoked ∧ OnRecord sid due t ∧ s.clock ≤ t.clock := by
  induction history with
  | nil => exact ⟨swept, recorded, le_refl _⟩
  | snoc before last ih =>
    rename_i u v ops op
    have clock := step_clock last
    have passed : u.clock ≤ op.now := last.1
    have fewer : (u.revocations.map Prod.fst).dedup.length ≤
        (v.revocations.map Prod.fst).dedup.length := by
      refine (List.nodup_dedup _).length_le_of_subset fun key mem => List.mem_dedup.mpr ?_
      exact List.map_subset Prod.fst (revocations_grow last) (List.mem_dedup.mp mem)
    obtain ⟨still, holds, since⟩ := ih (by omega) (by linarith)
    refine ⟨step_swept room lives still last, ?_, by linarith⟩
    rcases step_on_record room still holds last (by linarith) (by linarith) with there | full
    · exact there
    · omega

theorem on_record_refused {issuedAt : Int} (swept : Swept st.revoked s.clock s.revoked)
    (recorded : OnRecord sid due s)
    (verified : verifiedSession signer token = some (sid, issuedAt)) (early : later < due) :
    (sessionIsValid signer st s.revoked token later).2 = false := by
  obtain ⟨e, named, lasts, value, trails⟩ := recorded
  obtain ⟨last, -, sound, -⟩ := swept
  by_contra accepted
  refine ((sessionIsValid_iff verified).mp (Bool.not_eq_false _ ▸ accepted)).1 ?_
  exact (get_revoked_iff sound.toTiered).mpr ⟨e, mem_rows.mpr (Or.inl (mem_of_trails trails)), named,
    lt_of_lt_of_le early lasts, value⟩

theorem admits_iff : Admits signer st s header now ↔
    ∃ first, firstCookie sessionCookie header = some first ∧
      (sessionIsValid signer st s.revoked (stripBy (· = '"') first) now).2 = true := by
  rw [Admits, cookieValue_eq]
  cases firstCookie sessionCookie header with
  | none => simp [sessionIsValid, verifiedSession]
  | some first => simp

theorem logout_eq (signer : SessionSigner) (st : SessionSettings) (s : Sessions) (header : String)
    (now : ℚ) : s.logout signer st header now =
      s.next signer st (.revoke (((lastCookie sessionCookie header).map unquote).getD "") now) := by
  unfold Sessions.logout
  rw [cookieParser_eq (by decide)]
  generalize ((lastCookie sessionCookie header).map unquote).getD "" = token
  by_cases blank : token = ""
  · subst blank
    simp [Sessions.next, revokeSession, revokes, sessionIsValid, verifiedSession]
  · simp only [if_neg blank]

theorem logout_records {last : String} (found : lastCookie sessionCookie header = some last)
    (valid : (sessionIsValid signer st s.revoked (unquote last) now).2 = true) :
    ∃ sid issuedAt, verifiedSession signer (unquote last) = some (sid, issuedAt) ∧
      s.logout signer st header now =
        { revoked := (s.revoked.sweep now).set st.revoked sid true now, clock := now
          revocations := (sid, now) :: s.revocations } := by
  rw [logout_eq, found]
  simp only [Option.map_some, Option.getD_some]
  rcases revoke_cases signer st s.revoked (unquote last) now with ⟨silent, -⟩ |
    ⟨sid, issuedAt, verified, -, recorded, same⟩
  · obtain ⟨sid, issuedAt, verified, -⟩ := verified_of_valid valid
    simp [revokes, valid, verified] at silent
  · refine ⟨sid, issuedAt, verified, ?_⟩
    simp [Sessions.next, recorded, same]

theorem logout_cases (signer : SessionSigner) (st : SessionSettings) (s : Sessions)
    (header : String) (now : ℚ) :
    (s.logout signer st header now).revoked = s.revoked ∨
    (s.logout signer st header now).revoked = s.revoked.sweep now ∨
    ∃ last sid issuedAt, lastCookie sessionCookie header = some last ∧
      verifiedSession signer (unquote last) = some (sid, issuedAt) ∧
      (sessionIsValid signer st s.revoked (unquote last) now).2 = true ∧
      (s.logout signer st header now).revoked =
        (s.revoked.sweep now).set st.revoked sid true now := by
  rw [logout_eq]
  rcases next_cases signer st s
      (.revoke (((lastCookie sessionCookie header).map unquote).getD "") now) with
    next | next | ⟨token, sid, issuedAt, same, verified, valid, next⟩
  · exact Or.inl (by rw [next])
  · exact Or.inr (Or.inl (by rw [next]; rfl))
  · right
    right
    cases same
    cases found : lastCookie sessionCookie header with
    | none => simp [found, verifiedSession] at verified
    | some last =>
      rw [found] at verified valid next
      exact ⟨last, sid, issuedAt, rfl, verified, valid, by rw [next]; rfl⟩

theorem accepted_kept {issuedAt : Int} {kept : ExpiringStore Bool} {last instant : ℚ}
    (tiered : Tiered st.revoked last store) (tiered' : Tiered st.revoked instant kept)
    (origin : ∀ e ∈ kept.rows, e.key = sid → e ∈ store.rows)
    (verified : verifiedSession signer token = some (sid, issuedAt))
    (accepted : (sessionIsValid signer st store token now).2 = true) :
    (sessionIsValid signer st kept token now).2 = true := by
  obtain ⟨fresh, young, old⟩ := (sessionIsValid_iff verified).mp accepted
  refine (sessionIsValid_iff verified).mpr ⟨fun recorded => fresh ?_, young, old⟩
  obtain ⟨e, mem, named, live, value⟩ := (get_revoked_iff tiered').mp recorded
  exact (get_revoked_iff tiered).mpr ⟨e, origin e mem named, named, live, value⟩

theorem accepted_after_sweep {issuedAt : Int} (swept : Swept st.revoked s.clock s.revoked)
    (passed : s.clock ≤ now) (verified : verifiedSession signer token = some (sid, issuedAt))
    (accepted : (sessionIsValid signer st s.revoked token now).2 = true) :
    (sessionIsValid signer st (s.revoked.sweep now) token now).2 = true := by
  obtain ⟨sound, -⟩ := swept_sweep swept passed
  obtain ⟨last, -, before, -⟩ := swept
  exact accepted_kept before.toTiered sound.toTiered
    (fun e mem _ => ((mem_sweep_iff before.toTiered).mp mem).1) verified accepted

theorem accepted_after_set {other : String} {issuedAt : Int} (room : 2 ≤ st.authStoreMaxEntries)
    (swept : Swept st.revoked s.clock s.revoked) (passed : s.clock ≤ now)
    (lives : 0 < st.revoked.ttl)
    (verified : verifiedSession signer token = some (sid, issuedAt))
    (accepted : (sessionIsValid signer st s.revoked token now).2 = true) (apart : sid ≠ other) :
    (sessionIsValid signer st ((s.revoked.sweep now).set st.revoked other true now) token now).2 =
      true := by
  obtain ⟨sound, -⟩ := swept_sweep swept passed
  obtain ⟨_, -, written, -⟩ := swept_set room lives swept passed other
  refine accepted_kept sound.toTiered written.toTiered ?_ verified
    (accepted_after_sweep swept passed verified accepted)
  intro e mem named
  rcases mem_write room (sweep_sound sound now) mem with rfl | ⟨here, -⟩
  · exact absurd named.symm apart
  · exact ((mem_sweep_iff sound.toTiered).mp here).1

theorem ends_of_recorded {last : String} {issuedAt : Int} (room : 2 ≤ st.authStoreMaxEntries)
    (swept : Swept st.revoked s.clock s.revoked) (passed : s.clock ≤ now)
    (found : lastCookie sessionCookie header = some last)
    (valid : (sessionIsValid signer st s.revoked (unquote last) now).2 = true)
    (own : (verifiedSession signer (unquote last)).map Prod.fst = some sid)
    (verified : verifiedSession signer token = some (sid, issuedAt))
    (young : (-clockSkewToleranceSeconds : ℚ) ≤ now - issuedAt) {after : List SessionOp}
    (rest : Trace (SessionStep signer st)
      { s.logout signer st header now with revocations := [] } after t)
    (few : ((t.revocations.map Prod.fst).dedup.length : Int) < st.authStoreMaxEntries)
    (since : t.clock ≤ later) : (sessionIsValid signer st t.revoked token later).2 = false := by
  have lives := retention_positive valid
  obtain ⟨sid', issuedAt', verified', next⟩ := logout_records found valid
  have same : sid' = sid := by simpa [verified'] using own
  subst same
  rw [next] at rest
  obtain ⟨sound, within⟩ := swept_sweep swept passed
  have again := sweep_sound sound now
  by_cases early : later < now + st.revoked.ttl
  · have recorded : OnRecord sid' (now + st.revoked.ttl)
        { revoked := (s.revoked.sweep now).set st.revoked sid' true now, clock := now } :=
      ⟨⟨sid', now + st.revoked.ttl, true⟩, rfl, le_refl _, rfl,
        trails_fresh_ordinary room again _ (revoked_plain st true) (revoked_alone again.toTiered)⟩
    obtain ⟨still, holds, -⟩ := trace_on_record room lives
      (swept_set room lives swept passed sid') recorded (le_refl _) rest few
      (lt_of_le_of_lt since early)
    exact on_record_refused still holds verified early
  · by_contra accepted
    obtain ⟨-, -, old⟩ := (sessionIsValid_iff verified).mp (Bool.not_eq_false _ ▸ accepted)
    simp only [SessionSettings.revoked, revocationClockSlackSeconds, clockSkewToleranceSeconds,
      Int.cast_add, Int.cast_ofNat] at early young
    linarith

theorem ends_of_same (room : 2 ≤ st.authStoreMaxEntries)
    (swept : 0 < st.revoked.ttl → Swept st.revoked s.clock s.revoked) (passed : s.clock ≤ now)
    (same : SameSession signer st s header now) : LogoutEnds signer st s header now := by
  intro admits after t rest few later since again
  obtain ⟨first, found, accepted⟩ := admits_iff.mp admits
  obtain ⟨last, found', valid, own⟩ := same first found accepted
  obtain ⟨sid, issuedAt, verified, -, young, -⟩ := verified_of_valid accepted
  rw [verified] at own
  have refused := ends_of_recorded room (swept (retention_positive valid)) passed found' valid own
    verified young rest few since
  obtain ⟨first', found'', valid'⟩ := admits_iff.mp again
  rw [found] at found''
  cases found''
  rw [refused] at valid'
  cases valid'

theorem same_of_ends (room : 2 ≤ st.authStoreMaxEntries)
    (swept : 0 < st.revoked.ttl → Swept st.revoked s.clock s.revoked) (passed : s.clock ≤ now)
    (ends : LogoutEnds signer st s header now) : SameSession signer st s header now := by
  intro first found accepted
  have lives := retention_positive accepted
  obtain ⟨sid, issuedAt, verified, -⟩ := verified_of_valid accepted
  -- the request that follows the logout at once
  have refused : ¬ Admits signer st { s.logout signer st header now with revocations := [] }
      header now := by
    refine ends (admits_iff.mpr ⟨first, found, accepted⟩) [] _ Trace.nil ?_ now ?_
    · simp only [List.map_nil, List.dedup_nil, List.length_nil]
      omega
    · rw [logout_eq]
      exact le_refl now
  rw [admits_iff] at refused
  simp only [found, Option.some.injEq, exists_eq_left'] at refused
  rcases logout_cases signer st s header now with same | same |
    ⟨last, other, issuedAt', later, verified', valid, same⟩
  · rw [same] at refused
    exact absurd accepted refused
  · rw [same] at refused
    exact absurd (accepted_after_sweep (swept lives) passed verified accepted) refused
  · refine ⟨last, later, valid, ?_⟩
    rw [verified', verified]
    by_contra apart
    rw [same] at refused
    exact refused (accepted_after_set room (swept lives) passed lives verified accepted
      fun equal => apart (by simp [equal]))

end Runs

section Requests
variable {signer : SessionSigner} {st : SessionSettings} {s : Sessions} {header value : String}
  {now : ℚ}

theorem served_iff_admits {authorized : String → Bool} {request : HttpRequest}
    (guarded :
      (unauthenticatedPaths.contains request.path || isPublicShell request.path) = false)
    (basic : authorized request.authorization = false) :
    (httpBasicAuthMiddleware signer st true authorized s.revoked request now).2 = .served ↔
      Admits signer st s request.cookie now := by
  unfold httpBasicAuthMiddleware Admits
  rw [guarded]
  simp only [Bool.false_eq_true, if_false, reduceCtorEq]
  split
  · rename_i revoked checked
    simp [checked]
  · rename_i revoked checked
    simp [checked, basic]

/-- To the sessions a request for a guarded path is a check of the token in its cookie. -/
theorem middleware_checks {authorized : String → Bool} {request : HttpRequest}
    (guarded :
      (unauthenticatedPaths.contains request.path || isPublicShell request.path) = false) :
    (httpBasicAuthMiddleware signer st true authorized s.revoked request now).1 =
      (s.next signer st (.check (cookieValue request.cookie sessionCookie) now)).revoked := by
  unfold httpBasicAuthMiddleware
  rw [guarded]
  simp only [Bool.false_eq_true, if_false, reduceCtorEq, Sessions.next]
  split
  · rename_i revoked checked
    rw [checked]
  · rename_i revoked checked
    rw [checked]

theorem logout_served {configured : Bool} {authorized : String → Bool}
    {revoked : ExpiringStore Bool} {request : HttpRequest}
    (path : request.path = "/api/auth/logout") :
    httpBasicAuthMiddleware signer st configured authorized revoked request now =
      (revoked, .served) := by
  unfold httpBasicAuthMiddleware
  rw [path]
  exact if_pos (by decide)

theorem unquote_plain (plain : '"' ∉ value.toList) : unquote value = stripBy (· = '"') value := by
  have same : stripBy (· = '"') value = value :=
    stripBy_eq_self fun c mem => decide_eq_false fun quote => plain (quote ▸ mem)
  rw [same]
  unfold unquote
  split
  · rename_i rest text
    rw [text] at plain
    exact absurd List.mem_cons_self plain
  · rfl

theorem unescape_plain {text : List Char} (plain : '\\' ∉ text) : unescape text = text := by
  induction text with
  | nil => rfl
  | cons c text ih =>
    rw [List.mem_cons, not_or] at plain
    unfold unescape
    split
    · rename_i same
      exact absurd (List.cons.inj same).1.symm plain.1
    · rename_i same
      exact absurd (List.cons.inj same).1.symm plain.1
    · rename_i same
      obtain ⟨rfl, rfl⟩ := List.cons.inj same
      rw [ih plain.2]
    · rename_i same
      cases same

theorem unquote_quoted {inner : List Char} (quotes : '"' ∉ inner) (escapes : '\\' ∉ inner) :
    unquote (String.ofList ('"' :: inner ++ ['"'])) =
      stripBy (· = '"') (String.ofList ('"' :: inner ++ ['"'])) := by
  have around : stripBy (· = '"') (String.ofList (['"'] ++ inner ++ ['"'])) =
      stripBy (· = '"') (String.ofList inner) := stripBy_around (by simp) (by simp)
  have same : stripBy (· = '"') (String.ofList inner) = String.ofList inner := by
    apply stripBy_eq_self
    intro c mem
    rw [String.toList_ofList] at mem
    exact decide_eq_false fun quote => quotes (quote ▸ mem)
  rw [List.singleton_append] at around
  rw [around, same]
  simp [unquote, unescape_plain escapes]

theorem single_cookie_same (single : (split ';' header).filterMap (named sessionCookie) = [value])
    (plain : unquote value = stripBy (· = '"') value) : SameSession signer st s header now := by
  intro first found accepted
  obtain ⟨part, mem, reads⟩ := List.exists_of_findSome?_eq_some found
  have nonblank := named_of_spelled (by decide) reads
  have same : first = value := by
    have here : first ∈ (split ';' header).filterMap (named sessionCookie) :=
      List.mem_filterMap.mpr ⟨part, mem, nonblank⟩
    rw [single] at here
    exact List.mem_singleton.mp here
  subst same
  refine ⟨first, ?_, by rw [plain]; exact accepted, by rw [plain]⟩
  unfold lastCookie
  rw [← List.head?_filterMap, List.filterMap_reverse, single]
  rfl

theorem single_cookie_ends {start : ℚ} {before : List SessionOp}
    (room : 2 ≤ st.authStoreMaxEntries)
    (history : Trace (SessionStep signer st) { clock := start } before s) (passed : s.clock ≤ now)
    (single : (split ';' header).filterMap (named sessionCookie) = [value])
    (plain : unquote value = stripBy (· = '"') value) : LogoutEnds signer st s header now :=
  ends_of_same room (fun lives => trace_swept room lives history) passed
    (single_cookie_same single plain)

end Requests

/-- A logout ends the session that the middleware reads from the same header exactly when the
    two parsers find one session in it. -/
theorem logout_ends_iff {signer : SessionSigner} {st : SessionSettings} {start : ℚ}
    {before : List SessionOp} {s : Sessions} (room : 2 ≤ st.authStoreMaxEntries)
    (history : Trace (SessionStep signer st) { clock := start } before s) (header : String)
    {now : ℚ} (passed : s.clock ≤ now) :
    LogoutEnds signer st s header now ↔ SameSession signer st s header now :=
  ⟨same_of_ends room (fun lives => trace_swept room lives history) passed,
    ends_of_same room (fun lives => trace_swept room lives history) passed⟩

theorem logout_beside_a_theme :
    Admits Sample.signer Sample.hour { clock := 0 } "theme=dark; pullbackup_session=+a" 0 ∧
      LogoutEnds Sample.signer Sample.hour { clock := 0 } "theme=dark; pullbackup_session=+a" 0 := by
  have opened : Trace (SessionStep Sample.signer Sample.hour) { clock := 0 } [] { clock := 0 } :=
    Trace.nil
  refine ⟨by decide +kernel,
    (logout_ends_iff (by decide) opened _ (by decide +kernel)).mpr fun first found accepted => ?_⟩
  have read : firstCookie sessionCookie "theme=dark; pullbackup_session=+a" = some "+a" := by
    decide +kernel
  rw [read] at found
  cases found
  exact ⟨"+a", by decide +kernel, by decide +kernel, by decide +kernel⟩

/-- Of two cookies the first is accepted and the last is logged out; and a lone quote is dropped
    for the one, kept for the other. -/
theorem first_duplicate_outlives_logout :
    ¬ LogoutEnds Sample.signer Sample.hour { clock := 0 }
        "pullbackup_session=+a; pullbackup_session=+b" 0 ∧
      ¬ LogoutEnds Sample.signer Sample.hour { clock := 0 } "pullbackup_session=\"+a" 0 := by
  constructor
  · intro ends
    exact ends (by decide +kernel) [] _ Trace.nil (by decide +kernel) 0 (by decide +kernel)
      (by decide +kernel)
  · intro ends
    exact ends (by decide +kernel) [] _ Trace.nil (by decide +kernel) 0 (by decide +kernel)
      (by decide +kernel)

end Pullbackup
