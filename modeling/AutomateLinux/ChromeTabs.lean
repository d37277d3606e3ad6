import AutomateLinux.MacroTable

/-!
# The URL of the active tab

Where the extension does not tell the URL, the tabs that the browser lists are searched
for one whose title agrees with the title of the window.  Every text contains the empty
one, so that a tab without a title agrees with any window.  What kind of page a tab shows
is looked for anywhere in its URL, so that an address that mentions `devtools://` in a query
is taken for one of the browser's own.
-/

namespace AutomateLinux

namespace ChromeTabs

/-- An element of the array that DevTools returns. -/
structure Tab where
  type : String
  url : String
  title : String
deriving DecidableEq, Repr

/-! ## The search -/

def isEligible (tab : Tab) : Bool :=
  tab.type = "page" && !containsText tab.url "chrome-extension://" &&
    !containsText tab.url "devtools://"

def isReal (tab : Tab) : Bool := !containsText tab.url "chrome://"

/-- `titleInWindow || windowInTitle`. -/
def titleMatches (preferredTitle : String) (tab : Tab) : Bool :=
  containsText preferredTitle tab.title || containsText tab.title preferredTitle

/-- The loop, with `fallbackUrl` and `lastRealUrl`, and what is returned behind it. -/
def scanTabs (preferredTitle : String) : String → String → List Tab → String
  | fallbackUrl, lastRealUrl, [] => if lastRealUrl ≠ "" then lastRealUrl else fallbackUrl
  | fallbackUrl, lastRealUrl, tab :: root =>
      if isEligible tab then
        let fallbackUrl := if fallbackUrl = "" then tab.url else fallbackUrl
        let lastRealUrl := if isReal tab then tab.url else lastRealUrl
        if preferredTitle ≠ "" ∧ titleMatches preferredTitle tab then tab.url
        else scanTabs preferredTitle fallbackUrl lastRealUrl root
      else scanTabs preferredTitle fallbackUrl lastRealUrl root

/-- `root` is nothing if the response is not parsed. -/
def getChromeTabUrl (isNativeHostConnected : Bool) (extensionUrl : String)
    (root : Option (List Tab)) (preferredTitle : String) : String :=
  if isNativeHostConnected ∧ extensionUrl ≠ "" then extensionUrl
  else
    match root with
    | none => ""
    | some root => scanTabs preferredTitle "" "" root

/-! ## What it is meant to do -/

/-- The URL has the scheme. -/
def hasScheme (scheme url : String) : Bool :=
  decide ((scheme ++ "://").toList <+: url.toList)

/-- A page that is neither an extension's nor the developer tools'. -/
def isPage (tab : Tab) : Bool :=
  tab.type = "page" && !hasScheme "chrome-extension" tab.url && !hasScheme "devtools" tab.url

def isChromePage (tab : Tab) : Bool := hasScheme "chrome" tab.url

/-- A title that agrees. -/
def titleAgrees (preferredTitle : String) (tab : Tab) : Bool :=
  tab.title ≠ "" && titleMatches preferredTitle tab

/-- The last tab that shows no page of the browser's own, else the first one. -/
def fallbackTab (tabs : List Tab) : Option Tab :=
  ((tabs.filter isPage).filter fun tab => !isChromePage tab).getLast?.or
    (tabs.filter isPage).head?

/-- The first tab whose title agrees, else the fallback. -/
def selectedTab (preferredTitle : String) (tabs : List Tab) : Option Tab :=
  ((tabs.filter isPage).find? (titleAgrees preferredTitle)).or (fallbackTab tabs)

def selectedUrl (preferredTitle : String) (tabs : List Tab) : String :=
  ((selectedTab preferredTitle tabs).map Tab.url).getD ""

def SelectsTab (preferredTitle : String) (tabs : List Tab) : Prop :=
  ∀ isNativeHostConnected extensionUrl, ¬ (isNativeHostConnected = true ∧ extensionUrl ≠ "") →
    getChromeTabUrl isNativeHostConnected extensionUrl (some tabs) preferredTitle =
      selectedUrl preferredTitle tabs

/-! ## Runs of the loop -/

section

variable {preferredTitle fallbackUrl lastRealUrl : String} {tab : Tab} {tabs : List Tab}

theorem scanTabs_filter (preferredTitle fallbackUrl lastRealUrl : String) (tabs : List Tab) :
    scanTabs preferredTitle fallbackUrl lastRealUrl tabs =
      scanTabs preferredTitle fallbackUrl lastRealUrl (tabs.filter isEligible) := by
  induction tabs generalizing fallbackUrl lastRealUrl with
  | nil => rfl
  | cons tab tabs ih =>
      by_cases htab : isEligible tab = true
      · rw [List.filter_cons_of_pos htab, scanTabs, scanTabs, if_pos htab, if_pos htab]
        dsimp only
        rw [ih]
      · rw [List.filter_cons_of_neg htab, scanTabs, if_neg htab, ih]

theorem scanTabs_of_find?_eq_some (hwindow : preferredTitle ≠ "")
    (heligible : ∀ tab ∈ tabs, isEligible tab = true)
    (hfind : tabs.find? (titleMatches preferredTitle) = some tab) :
    scanTabs preferredTitle fallbackUrl lastRealUrl tabs = tab.url := by
  induction tabs generalizing fallbackUrl lastRealUrl with
  | nil => contradiction
  | cons first tabs ih =>
      obtain ⟨hfirst, hrest⟩ := List.forall_mem_cons.mp heligible
      rw [scanTabs, if_pos hfirst]
      by_cases hmatch : titleMatches preferredTitle first = true
      · rw [List.find?_cons_of_pos hmatch] at hfind
        rw [if_pos ⟨hwindow, hmatch⟩, Option.some.inj hfind]
      · rw [List.find?_cons_of_neg hmatch] at hfind
        rw [if_neg fun h => hmatch h.2]
        exact ih hrest hfind

/-- Behind the loop, `lastRealUrl` is the URL of the last tab that has a page of its own. -/
def lastUrl (lastRealUrl : String) (tabs : List Tab) : String :=
  ((tabs.filter isReal).getLast?.map Tab.url).getD lastRealUrl

/-- Behind the loop, `fallbackUrl` is the first URL that is not empty. -/
def firstUrl (fallbackUrl : String) (tabs : List Tab) : String :=
  ((fallbackUrl :: tabs.map Tab.url).find? fun url => url ≠ "").getD ""

theorem lastUrl_cons (lastRealUrl : String) (tab : Tab) (tabs : List Tab) :
    lastUrl lastRealUrl (tab :: tabs) =
      lastUrl (if isReal tab then tab.url else lastRealUrl) tabs := by
  unfold lastUrl
  split
  · rename_i hreal
    rw [List.filter_cons_of_pos hreal, List.getLast?_cons]
    cases (tabs.filter isReal).getLast? <;> rfl
  · rename_i hreal
    rw [List.filter_cons_of_neg hreal]

theorem firstUrl_cons (fallbackUrl : String) (tab : Tab) (tabs : List Tab) :
    firstUrl fallbackUrl (tab :: tabs) =
      firstUrl (if fallbackUrl = "" then tab.url else fallbackUrl) tabs := by
  unfold firstUrl
  split
  · rename_i hempty
    rw [List.map_cons, List.find?_cons_of_neg (by simp [hempty])]
  · rename_i hsome
    rw [List.find?_cons_of_pos (by simp [hsome]), List.find?_cons_of_pos (by simp [hsome])]

theorem scanTabs_of_find?_eq_none (heligible : ∀ tab ∈ tabs, isEligible tab = true)
    (hfind : tabs.find? (titleMatches preferredTitle) = none) :
    scanTabs preferredTitle fallbackUrl lastRealUrl tabs =
      if lastUrl lastRealUrl tabs ≠ "" then lastUrl lastRealUrl tabs
      else firstUrl fallbackUrl tabs := by
  induction tabs generalizing fallbackUrl lastRealUrl with
  | nil =>
      have hfirst : firstUrl fallbackUrl [] = fallbackUrl := by
        unfold firstUrl
        by_cases hempty : fallbackUrl = ""
        · simp [hempty]
        · simp [hempty]
      rw [hfirst]
      rfl
  | cons first tabs ih =>
      obtain ⟨hfirst, hrest⟩ := List.forall_mem_cons.mp heligible
      rw [List.find?_cons] at hfind
      split at hfind
      · contradiction
      · rename_i hmatch
        rw [scanTabs, if_pos hfirst, lastUrl_cons, firstUrl_cons]
        dsimp only
        rw [if_neg (by simp [hmatch]), ih hrest hfind]

/-! ## Which URL is returned -/

/-- The URL that the loop returns, by the tabs it does not skip. -/
def scannedUrl (preferredTitle : String) (eligible : List Tab) : String :=
  match eligible.find? (titleMatches preferredTitle) with
  | some tab => tab.url
  | none =>
      if lastUrl "" eligible ≠ "" then lastUrl "" eligible else firstUrl "" eligible

theorem scanTabs_eq_scannedUrl (hwindow : preferredTitle ≠ "") (tabs : List Tab) :
    scanTabs preferredTitle "" "" tabs =
      scannedUrl preferredTitle (tabs.filter isEligible) := by
  have heligible : ∀ tab ∈ tabs.filter isEligible, isEligible tab = true :=
    fun tab htab => List.of_mem_filter htab
  rw [scanTabs_filter, scannedUrl]
  split
  · rename_i hfind
    exact scanTabs_of_find?_eq_some hwindow heligible hfind
  · rename_i hfind
    exact scanTabs_of_find?_eq_none heligible hfind

theorem firstUrl_eq_empty_iff : firstUrl "" tabs = "" ↔ ∀ tab ∈ tabs, tab.url = "" := by
  unfold firstUrl
  rw [List.find?_cons_of_neg (by simp)]
  cases hfind : (tabs.map Tab.url).find? fun url => url ≠ "" with
  | none =>
      have hall := List.find?_eq_none.mp hfind
      refine iff_of_true rfl fun tab htab => ?_
      simpa using hall tab.url (List.mem_map_of_mem htab)
  | some url =>
      have hurl : url ≠ "" := by simpa using List.find?_some hfind
      obtain ⟨tab, htab, rfl⟩ := List.mem_map.mp (List.mem_of_find?_eq_some hfind)
      exact iff_of_false hurl fun hall => hurl (hall tab htab)

theorem lastUrl_eq_empty_or_mem (tabs : List Tab) :
    lastUrl "" tabs = "" ∨ ∃ tab ∈ tabs, isReal tab = true ∧ lastUrl "" tabs = tab.url := by
  unfold lastUrl
  cases hlast : (tabs.filter isReal).getLast? with
  | none => exact Or.inl rfl
  | some last =>
      obtain ⟨hmem, hreal⟩ := List.mem_filter.mp (List.mem_of_getLast? hlast)
      exact Or.inr ⟨last, hmem, hreal, rfl⟩

theorem firstUrl_eq_empty_or_mem (tabs : List Tab) :
    firstUrl "" tabs = "" ∨ ∃ tab ∈ tabs, firstUrl "" tabs = tab.url := by
  unfold firstUrl
  rw [List.find?_cons_of_neg (by simp)]
  cases hfind : (tabs.map Tab.url).find? fun url => url ≠ "" with
  | none => exact Or.inl rfl
  | some url =>
      obtain ⟨tab, htab, rfl⟩ := List.mem_map.mp (List.mem_of_find?_eq_some hfind)
      exact Or.inr ⟨tab, htab, rfl⟩

theorem scannedUrl_eq_empty_or_mem (preferredTitle : String) (tabs : List Tab) :
    scannedUrl preferredTitle tabs = "" ∨
      ∃ tab ∈ tabs, scannedUrl preferredTitle tabs = tab.url := by
  unfold scannedUrl
  split
  · rename_i tab hfind
    exact Or.inr ⟨tab, List.mem_of_find?_eq_some hfind, rfl⟩
  · split
    · rcases lastUrl_eq_empty_or_mem tabs with hempty | ⟨tab, hmem, -, hurl⟩
      · exact Or.inl hempty
      · exact Or.inr ⟨tab, hmem, hurl⟩
    · exact firstUrl_eq_empty_or_mem tabs

/-! ## Tabs taken for something else -/

theorem containsText_of_hasScheme {scheme url : String} (hscheme : hasScheme scheme url = true) :
    containsText url (scheme ++ "://") = true :=
  decide_eq_true (of_decide_eq_true hscheme).isInfix

theorem isPage_of_isEligible (heligible : isEligible tab = true) : isPage tab = true := by
  have hextension : hasScheme "chrome-extension" tab.url = true →
      containsText tab.url "chrome-extension://" = true := containsText_of_hasScheme
  have hdevtools : hasScheme "devtools" tab.url = true →
      containsText tab.url "devtools://" = true := containsText_of_hasScheme
  simp only [isEligible, isPage, Bool.and_eq_true, Bool.not_eq_true', decide_eq_true_eq]
    at heligible ⊢
  obtain ⟨⟨htype, hnotExtension⟩, hnotDevtools⟩ := heligible
  refine ⟨⟨htype, Bool.eq_false_iff.mpr fun h => ?_⟩, Bool.eq_false_iff.mpr fun h => ?_⟩
  · exact absurd (hextension h) (Bool.eq_false_iff.mp hnotExtension)
  · exact absurd (hdevtools h) (Bool.eq_false_iff.mp hnotDevtools)

theorem not_isChromePage_of_isReal (hreal : isReal tab = true) : isChromePage tab = false := by
  refine Bool.eq_false_iff.mpr fun h => ?_
  have hcontains : containsText tab.url "chrome://" = true := containsText_of_hasScheme h
  rw [isReal, hcontains] at hreal
  contradiction

theorem filter_isPage_isEligible (tabs : List Tab) :
    (tabs.filter isPage).filter isEligible = tabs.filter isEligible := by
  rw [List.filter_filter]
  refine List.filter_congr fun tab _ => ?_
  cases heligible : isEligible tab with
  | false => rfl
  | true => rw [isPage_of_isEligible heligible]; rfl

/-- Tabs with one URL are skipped together. -/
theorem isEligible_of_url_eq {other : Tab} (hpage : isPage tab = true)
    (heligible : isEligible other = true) (hurl : tab.url = other.url) :
    isEligible tab = true := by
  simp only [isPage, isEligible, Bool.and_eq_true] at hpage heligible ⊢
  rw [hurl]
  exact ⟨⟨hpage.1.1, heligible.1.2⟩, heligible.2⟩

/-- The URL of a tab that is skipped by mistake is never returned. -/
theorem isEligible_of_scannedUrl_eq (hpage : isPage tab = true)
    (hurl : scannedUrl preferredTitle (tabs.filter isEligible) = tab.url) :
    isEligible tab = true := by
  rcases scannedUrl_eq_empty_or_mem preferredTitle (tabs.filter isEligible) with
    hempty | ⟨other, hother, hsame⟩
  · simp only [isPage, Bool.and_eq_true] at hpage
    rw [isEligible, ← hurl, hempty, hpage.1.1]
    decide
  · exact isEligible_of_url_eq hpage (List.of_mem_filter hother) (hurl.symm.trans hsame)

/-! ## When the right URL is returned -/

/-- What has to hold of the fallback if no title seems to agree. -/
def FallsBack (eligible : List Tab) (meant : Tab) : Prop :=
  isEligible meant = true ∧
    if isReal meant then meant.url = "" → ∀ tab ∈ eligible, tab.url = ""
    else (∀ last ∈ (eligible.filter isReal).getLast?, last.url = "") ∧
      (eligible.map Tab.url).find? (fun url => url ≠ "") = some meant.url

theorem getLast?_filter_of_getLast? {l : List Tab} {p : Tab → Bool}
    (hlast : l.getLast? = some tab) (hp : p tab = true) :
    (l.filter p).getLast? = some tab := by
  obtain ⟨front, rfl⟩ := List.getLast?_eq_some_iff.mp hlast
  rw [List.filter_append, List.filter_cons_of_pos hp, List.filter_nil, List.getLast?_concat]

theorem find?_filter_of_find? {l : List Tab} {p q : Tab → Bool}
    (hfind : l.find? q = some tab) (hp : p tab = true) : (l.filter p).find? q = some tab := by
  obtain ⟨hq, before, after, rfl, hbefore⟩ := List.find?_eq_some_iff_append.mp hfind
  refine List.find?_eq_some_iff_append.mpr
    ⟨hq, before.filter p, after.filter p, ?_, fun earlier hearlier => ?_⟩
  · rw [List.filter_append, List.filter_cons_of_pos hp]
  · exact hbefore earlier (List.mem_of_mem_filter hearlier)

/-- The tab that ends the loop is the first one whose title agrees, if it has a title. -/
theorem find?_titleAgrees {l : List Tab} (hfind : l.find? (titleMatches preferredTitle) = some tab)
    (htitle : tab.title ≠ "") : l.find? (titleAgrees preferredTitle) = some tab := by
  obtain ⟨hmatch, before, after, hsplit, hbefore⟩ := List.find?_eq_some_iff_append.mp hfind
  refine List.find?_eq_some_iff_append.mpr
    ⟨by simp [titleAgrees, htitle, hmatch], before, after, hsplit, fun earlier hearlier => ?_⟩
  have hnot := hbefore earlier hearlier
  simp only [Bool.not_eq_true'] at hnot ⊢
  rw [titleAgrees, hnot, Bool.and_false]

theorem titleMatches_of_titleAgrees (hagrees : titleAgrees preferredTitle tab = true) :
    titleMatches preferredTitle tab = true :=
  (Bool.and_eq_true_iff.mp hagrees).2

/-- A tab that is meant and shows a page of its own is the last such tab. -/
theorem getLast?_of_fallbackTab (hfallback : fallbackTab tabs = some tab)
    (hreal : isReal tab = true) (heligible : isEligible tab = true) :
    ((tabs.filter isEligible).filter isReal).getLast? = some tab := by
  have hlast : ((tabs.filter isPage).filter fun tab => !isChromePage tab).getLast? =
      some tab := by
    rcases Option.or_eq_some_iff.mp hfallback with hlast | ⟨hnone, hhead⟩
    · exact hlast
    · have hmem := List.mem_of_head? hhead
      have hempty := List.filter_eq_nil_iff.mp (List.getLast?_eq_none_iff.mp hnone) tab hmem
      rw [not_isChromePage_of_isReal hreal] at hempty
      exact absurd rfl hempty
  have hboth := getLast?_filter_of_getLast? (getLast?_filter_of_getLast? hlast heligible) hreal
  rw [← filter_isPage_isEligible, List.filter_filter]
  rw [List.filter_filter, List.filter_filter] at hboth
  have hsame : (fun other => isReal other && isEligible other) =
      fun other => isReal other && isEligible other && !isChromePage other := by
    funext other
    cases hother : isReal other with
    | false => rfl
    | true => simp [not_isChromePage_of_isReal hother]
  rw [hsame]
  exact hboth

/-- A tab without a page of its own has a URL. -/
theorem url_ne_of_not_isReal (hreal : isReal tab = false) : tab.url ≠ "" := by
  intro hempty
  rw [isReal, hempty] at hreal
  contradiction

theorem isReal_of_url_eq {other : Tab} (hreal : isReal other = true) (hurl : tab.url = other.url) :
    isReal tab = true := by
  rw [isReal, hurl]
  exact hreal

/-- Without a title that seems to agree the other two candidates are told apart by their
URLs, so that an empty one does not count. -/
theorem scannedUrl_eq_iff_fallsBack (hpage : isPage tab = true)
    (hfallback : fallbackTab tabs = some tab)
    (hnone : (tabs.filter isEligible).find? (titleMatches preferredTitle) = none) :
    scannedUrl preferredTitle (tabs.filter isEligible) = tab.url ↔
      FallsBack (tabs.filter isEligible) tab := by
  by_cases heligible : isEligible tab = true
  swap
  · exact iff_of_false (fun hurl => heligible (isEligible_of_scannedUrl_eq hpage hurl))
      fun h => heligible h.1
  have hscanned : scannedUrl preferredTitle (tabs.filter isEligible) =
      if lastUrl "" (tabs.filter isEligible) ≠ "" then lastUrl "" (tabs.filter isEligible)
      else firstUrl "" (tabs.filter isEligible) := by
    rw [scannedUrl, hnone]
  rw [hscanned, FallsBack, and_iff_right heligible]
  by_cases hreal : isReal tab = true
  · have hlast : lastUrl "" (tabs.filter isEligible) = tab.url := by
      rw [lastUrl, getLast?_of_fallbackTab hfallback hreal heligible]
      rfl
    rw [if_pos hreal, hlast]
    by_cases hempty : tab.url = ""
    · rw [if_neg (by simp [hempty]), hempty, firstUrl_eq_empty_iff]
      exact ⟨fun hall _ => hall, fun hall => hall rfl⟩
    · rw [if_pos hempty]
      exact iff_of_true rfl fun h => absurd h hempty
  · have hne := url_ne_of_not_isReal (Bool.eq_false_iff.mpr hreal)
    have hlast : (∀ last ∈ ((tabs.filter isEligible).filter isReal).getLast?, last.url = "") ↔
        lastUrl "" (tabs.filter isEligible) = "" := by
      unfold lastUrl
      cases ((tabs.filter isEligible).filter isReal).getLast? <;> simp
    have hfirst : ((tabs.filter isEligible).map Tab.url).find? (fun url => url ≠ "") =
        some tab.url ↔ firstUrl "" (tabs.filter isEligible) = tab.url := by
      unfold firstUrl
      rw [List.find?_cons_of_neg (by simp)]
      cases ((tabs.filter isEligible).map Tab.url).find? (fun url => url ≠ "") with
      | none => simpa using hne.symm
      | some url => simp
    rw [if_neg hreal, hlast, hfirst]
    split
    · rename_i hsome
      refine iff_of_false (fun hurl => hreal ?_) fun h => hsome h.1
      obtain ⟨other, -, hother, hsame⟩ :=
        (lastUrl_eq_empty_or_mem (tabs.filter isEligible)).resolve_left hsome
      exact isReal_of_url_eq hother (hurl.symm.trans hsame)
    · rename_i hempty
      rw [and_iff_right (not_not.mp hempty)]

theorem selectedUrl_of_agrees
    (hfind : (tabs.filter isPage).find? (titleAgrees preferredTitle) = some tab) :
    selectedUrl preferredTitle tabs = tab.url := by
  rw [selectedUrl, selectedTab, hfind]
  rfl

theorem selectedUrl_of_none
    (hfind : (tabs.filter isPage).find? (titleAgrees preferredTitle) = none) :
    selectedUrl preferredTitle tabs = ((fallbackTab tabs).map Tab.url).getD "" := by
  rw [selectedUrl, selectedTab, hfind, Option.none_or]

theorem isPage_of_fallbackTab (hfallback : fallbackTab tabs = some tab) : isPage tab = true := by
  rcases Option.or_eq_some_iff.mp hfallback with hlast | ⟨-, hhead⟩
  · exact List.of_mem_filter (List.mem_of_mem_filter (List.mem_of_getLast? hlast))
  · exact List.of_mem_filter (List.mem_of_head? hhead)

theorem filter_isEligible_of_fallbackTab (hfallback : fallbackTab tabs = none) :
    tabs.filter isEligible = [] := by
  obtain ⟨-, hhead⟩ := Option.or_eq_none_iff.mp hfallback
  rw [← filter_isPage_isEligible, List.head?_eq_none_iff.mp hhead, List.filter_nil]

/-- Exactly when the right URL is returned.  The tab with the title that is looked for is
not skipped by mistake.  The first tab that seems to agree has a title, or the URL that is
meant.  If there is none, the fallback is not skipped or passed over by mistake, and it has
a URL or no tab has one. -/
theorem selectsTab_iff (hwindow : preferredTitle ≠ "") (tabs : List Tab) :
    SelectsTab preferredTitle tabs ↔
      (∀ tab ∈ (tabs.filter isPage).find? (titleAgrees preferredTitle),
        isEligible tab = true) ∧
      match (tabs.filter isEligible).find? (titleMatches preferredTitle) with
      | some tab => tab.title ≠ "" ∨ tab.url = selectedUrl preferredTitle tabs
      | none => ∀ tab ∈ fallbackTab tabs, FallsBack (tabs.filter isEligible) tab := by
  have hscan : SelectsTab preferredTitle tabs ↔
      scannedUrl preferredTitle (tabs.filter isEligible) = selectedUrl preferredTitle tabs := by
    rw [← scanTabs_eq_scannedUrl hwindow]
    constructor
    · intro hselects
      exact hselects false "" (by simp)
    · intro hsame isNativeHostConnected extensionUrl hnone
      rw [getChromeTabUrl, if_neg hnone]
      exact hsame
  rw [hscan]
  cases hagrees : (tabs.filter isPage).find? (titleAgrees preferredTitle) with
  | some meant =>
      have hpage : isPage meant = true := List.of_mem_filter (List.mem_of_find?_eq_some hagrees)
      rw [selectedUrl_of_agrees hagrees]
      by_cases heligible : isEligible meant = true
      swap
      · exact iff_of_false (fun hurl => heligible (isEligible_of_scannedUrl_eq hpage hurl))
          fun h => heligible (h.1 meant rfl)
      have hfound := find?_filter_of_find? hagrees heligible
      rw [filter_isPage_isEligible] at hfound
      have hall : ∀ tab ∈ some meant, isEligible tab = true := by simpa using heligible
      rw [and_iff_right hall]
      cases hfind : (tabs.filter isEligible).find? (titleMatches preferredTitle) with
      | none =>
          have hmatch := titleMatches_of_titleAgrees (List.find?_some hfound)
          exact absurd hmatch (List.find?_eq_none.mp hfind meant (List.mem_of_find?_eq_some hfound))
      | some tab =>
          rw [scannedUrl, hfind]
          refine ⟨Or.inr, fun h => h.elim (fun htitle => ?_) id⟩
          rw [Option.some.inj ((find?_titleAgrees hfind htitle).symm.trans hfound)]
  | none =>
      have hall : ∀ tab ∈ (none : Option Tab), isEligible tab = true := nofun
      rw [and_iff_right hall]
      cases hfind : (tabs.filter isEligible).find? (titleMatches preferredTitle) with
      | some tab =>
          rw [scannedUrl, hfind]
          refine ⟨Or.inr, fun h => h.elim (fun htitle => ?_) id⟩
          have hmem := List.mem_of_find?_eq_some hfind
          rw [← filter_isPage_isEligible] at hmem
          have hfound := List.find?_some (find?_titleAgrees hfind htitle)
          exact absurd hfound (List.find?_eq_none.mp hagrees tab (List.mem_of_mem_filter hmem))
      | none =>
          rw [selectedUrl_of_none hagrees]
          cases hfallback : fallbackTab tabs with
          | none =>
              rw [filter_isEligible_of_fallbackTab hfallback]
              exact iff_of_true rfl nofun
          | some tab =>
              have hiff := scannedUrl_eq_iff_fallsBack (isPage_of_fallbackTab hfallback)
                hfallback hfind
              simpa using hiff

theorem mail_selected : "Mail - Google Chrome" ≠ "" ∧
    SelectsTab "Mail - Google Chrome"
      [⟨"page", "https://calendar.org/", "Calendar"⟩, ⟨"page", "https://mail.org/", "Mail"⟩] := by
  have hagrees : ([⟨"page", "https://calendar.org/", "Calendar"⟩,
      ⟨"page", "https://mail.org/", "Mail"⟩].filter isPage).find?
        (titleAgrees "Mail - Google Chrome") = some ⟨"page", "https://mail.org/", "Mail"⟩ := by
    decide +kernel
  have hfind : ([⟨"page", "https://calendar.org/", "Calendar"⟩,
      ⟨"page", "https://mail.org/", "Mail"⟩].filter isEligible).find?
        (titleMatches "Mail - Google Chrome") = some ⟨"page", "https://mail.org/", "Mail"⟩ := by
    decide +kernel
  refine ⟨by decide, (selectsTab_iff (by decide) _).mpr ?_⟩
  rw [hagrees, hfind]
  have heligible : isEligible ⟨"page", "https://mail.org/", "Mail"⟩ = true := by decide +kernel
  exact ⟨by simpa using heligible, Or.inl (by decide)⟩

/-- A page that has not got a title yet is taken for the one in the window. -/
theorem untitledPage_fails :
    ¬ SelectsTab "Mail - Google Chrome"
      [⟨"page", "https://calendar.org/", ""⟩, ⟨"page", "https://mail.org/", "Mail"⟩] := by
  intro hselects
  have hurl := hselects false "" (by simp)
  revert hurl
  decide +kernel

end

end ChromeTabs

end AutomateLinux
