import CoralSwap.Lib.Search
import CoralSwap.Proof.PathQuotes
import CoralSwap.Router.BestPath

/-!
# The best path

The search values each candidate stage by stage, and the quote of a path goes hop by hop; a candidate has
a value exactly when its path has a quote, and then it is the last output. So the search keeps the best
of the routes over hubs, except for those that pass through an end of the route twice.
-/

namespace CoralSwap.Router

open Host Host.Call Host.Search

/-! ### No quote is trapped -/

theorem quoteOutputAmount_typed {amountIn reserveIn reserveOut : ℤ} {feeBps : ℕ} :
    FailsWith (· ≠ .trap) (quoteOutputAmount amountIn reserveIn reserveOut feeBps) := by
  unfold quoteOutputAmount feeFactor
  refine .bind (.failIf fun _ => nofun) fun _ _ => ?_
  refine .bind (.failIf fun _ => nofun) fun _ _ => ?_
  refine .bind (.bind (.failIf fun _ => nofun) fun _ _ => .ret _) fun _ _ => ?_
  refine .bind (.okOr fun _ => nofun) fun _ _ => ?_
  refine .bind (.okOr fun _ => nofun) fun _ _ => ?_
  refine .bind (.okOr fun _ => nofun) fun _ _ => ?_
  refine .bind (.okOr fun _ => nofun) fun _ _ => ?_
  exact .bind (.failIf fun _ => nofun) fun _ _ => .ret _

theorem getAmountOut_typed {amountIn reserveIn reserveOut : ℤ} {feeBps : ℕ} :
    FailsWith (· ≠ .trap) (getAmountOut amountIn reserveIn reserveOut feeBps) := by
  unfold getAmountOut
  rcases hquote : quoteOutputAmount amountIn reserveIn reserveOut feeBps with ⟨code | _⟩ | out
  · exact .fail nofun
  · exact absurd rfl (quoteOutputAmount_typed _ hquote)
  · exact .ok out

variable {Address χ : Type} [LinearOrder Address] {router : Address}
variable {env : RouterEnv router χ} {rest : χ} {factory : Address}

theorem getPairReservesAndFee_typed {pair tokenIn tokenOut : Address} :
    FailsWith (· ≠ .trap) (getPairReservesAndFee env rest pair tokenIn tokenOut) := by
  unfold getPairReservesAndFee sortTokens
  refine .bind (.okOr fun _ => nofun) fun _ _ => ?_
  refine .bind (.failIf fun _ => nofun) fun _ _ => ?_
  refine .bind (.okOr fun _ => nofun) fun _ _ => ?_
  refine .bind (.failIf fun _ => nofun) fun _ _ => ?_
  exact .bind (.bind (.failIf fun _ => nofun) fun _ _ => .ret _) fun _ _ => .ret _

variable (env rest factory) in
/-- A factory that is there: its registry is read without a failure. -/
structure RegistryAnswers : Prop where
  getPair : ∀ tokenA tokenB, env.chain.getPair rest factory tokenA tokenB ≠ none
  isPair : ∀ pair, env.chain.isPair rest factory pair ≠ none

omit [LinearOrder Address] in
theorem getPairAddress_typed (hanswers : RegistryAnswers env rest factory) {tokenA tokenB : Address} :
    FailsWith (· ≠ .trap) (getPairAddress env rest factory tokenA tokenB) := by
  unfold getPairAddress
  refine .bind (.orTrap fun hnone => absurd hnone (hanswers.getPair tokenA tokenB)) fun _ _ => ?_
  refine .bind (.okOr fun _ => nofun) fun pair _ => ?_
  refine .bind (.orTrap fun hnone => absurd hnone (hanswers.isPair pair)) fun _ _ => ?_
  exact .bind (.failIf fun _ => nofun) fun _ _ => .ret _

/-! ### The value of a candidate -/

variable (env rest factory) in
/-- The last output of a path that can be quoted. -/
def pathQuote (amountIn : ℤ) (path : List Address) : Option ℤ :=
  (getPathAmountsOut env rest factory path amountIn).toOption.bind List.getLast?

theorem pathQuote_eq_some {amountIn out : ℤ} {path : List Address} :
    pathQuote env rest factory amountIn path = some out ↔ ∃ amounts,
      getPathAmountsOut env rest factory path amountIn = .ok amounts ∧ amounts.getLast? = some out := by
  simp only [pathQuote, Option.bind_eq_some_iff, toOption_eq_some]

omit [LinearOrder Address] in
/-- The hops of a path, each taking what the one before has paid. -/
theorem lastOutput_eq_foldlM {price : Address → Address → Call RouterError (ℤ × ℤ × ℕ)}
    {token : Address} {path : List Address} {amountIn : ℤ} :
    (outputsAlong price token path amountIn).toOption.map (·.getLastD amountIn) =
      ((token :: path).zip path).foldlM (fun amount hop =>
        (price hop.1 hop.2).toOption.bind fun priced =>
          (getAmountOut amount priced.1 priced.2.1 priced.2.2).toOption) amountIn := by
  induction path generalizing token amountIn with
  | nil => rfl
  | cons next path ih =>
      rw [List.zip_cons_cons, List.foldlM_cons, outputsAlong]
      rcases price token next with fault | ⟨reserveIn, reserveOut, feeBps⟩
      · rfl
      · change (getAmountOut amountIn reserveIn reserveOut feeBps >>= _).toOption.map _ =
          (getAmountOut amountIn reserveIn reserveOut feeBps).toOption.bind _
        cases getAmountOut amountIn reserveIn reserveOut feeBps with
        | error fault => rfl
        | ok out =>
            change (outputsAlong price next path out >>= _).toOption.map _ =
              ((next :: path).zip path).foldlM _ out
            rw [← ih]
            cases outputsAlong price next path out with
            | error fault => rfl
            | ok outputs => exact congrArg some List.getLastD_cons

variable {tokenIn tokenOut next : Address} {path : List Address} {amountIn : ℤ}

theorem pathQuote_eq_foldlM : pathQuote env rest factory amountIn (tokenIn :: next :: path) =
    ((tokenIn :: next :: path).zip (next :: path)).foldlM (fun amount hop =>
      (getHop env rest factory hop.1 hop.2).toOption.bind fun priced =>
        (getAmountOut amount priced.1 priced.2.1 priced.2.2).toOption) amountIn := by
  rw [← lastOutput_eq_foldlM, pathQuote, getPathAmountsOut, pathAmountsOut_eq]
  cases hforward : outputsAlong (getHop env rest factory) tokenIn (next :: path) amountIn with
  | error fault => rfl
  | ok outputs =>
      obtain ⟨_, _, _, out, later, -, -, -, rfl⟩ := outputsAlong_cons hforward
      simp [Except.toOption, List.getLast?_cons]

/-- A candidate has the value of its path. -/
theorem quoteCandidate_eq (hanswers : RegistryAnswers env rest factory) :
    quoteCandidate env rest factory (tokenIn :: next :: path) amountIn =
      .ok (pathQuote env rest factory amountIn (tokenIn :: next :: path)) := by
  have hhops : (fun hop : Address × Address => (getHop env rest factory hop.1 hop.2).toOption) =
      fun hop => (getPairAddress env rest factory hop.1 hop.2).toOption.bind fun pair =>
        (getPairReservesAndFee env rest pair hop.1 hop.2).toOption :=
    funext fun hop => toOption_bind
  have hstages := mapM_zip_mapM
    (f := fun hop : Address × Address => (getPairAddress env rest factory hop.1 hop.2).toOption)
    (g := fun pair hop => (getPairReservesAndFee env rest pair hop.1 hop.2).toOption)
    (l := (tokenIn :: next :: path).zip (next :: path))
  have hfound : ∀ hop : Address × Address,
      (attempt (getPairAddress env rest factory hop.1 hop.2) : Call RouterError (Option Address)) =
        .ok (getPairAddress env rest factory hop.1 hop.2).toOption :=
    fun hop => attempt_eq (getPairAddress_typed hanswers)
  have hpriced : ∀ item : Address × Address × Address,
      (attempt (getPairReservesAndFee env rest item.1 item.2.1 item.2.2) :
        Call RouterError (Option (ℤ × ℤ × ℕ))) =
        .ok (getPairReservesAndFee env rest item.1 item.2.1 item.2.2).toOption :=
    fun item => attempt_eq getPairReservesAndFee_typed
  rw [pathQuote_eq_foldlM, ← foldlM_mapM, hhops, ← hstages]
  unfold quoteCandidate
  simp only [List.tail_cons]
  generalize (tokenIn :: next :: path).zip (next :: path) = hops
  rw [mapM_eq_map hfound]
  simp only [bind, Except.bind, mapM_id_map]
  cases hops.mapM fun hop => (getPairAddress env rest factory hop.1 hop.2).toOption with
  | none => rfl
  | some pairs =>
      simp only [Option.bind_some]
      rw [mapM_eq_map hpriced]
      simp only [mapM_id_map]
      cases (pairs.zip hops).mapM fun item =>
        (getPairReservesAndFee env rest item.1 item.2.1 item.2.2).toOption with
      | none => rfl
      | some priced =>
          simp only [Option.bind_some]
          rw [attempt_eq (.foldlM fun amount item => getAmountOut_typed), toOption_foldlM]

/-! ### What can be quoted -/

omit [LinearOrder Address] in
theorem outputsAlong_pos {price : Address → Address → Call RouterError (ℤ × ℤ × ℕ)} {token : Address}
    {outputs : List ℤ} (hforward : outputsAlong price token path amountIn = .ok outputs) :
    ∀ out ∈ outputs, 0 < out := by
  induction path generalizing token amountIn outputs with
  | nil =>
      obtain rfl := pure_eq_ok.mp hforward
      exact List.forall_mem_nil _
  | cons next path ih =>
      obtain ⟨_, _, _, out, later, -, hquote, hlater, rfl⟩ := outputsAlong_cons hforward
      have hout := (quoteOutputAmount_ok (mapQuote_eq_ok.mp hquote)).2.2.2.2.1
      exact List.forall_mem_cons.mpr ⟨hout, ih hlater⟩

theorem ne_of_getHop {priced : ℤ × ℤ × ℕ} (hhop : getHop env rest factory tokenIn tokenOut = .ok priced) :
    tokenIn ≠ tokenOut := by
  simp only [getHop, getPairReservesAndFee, sortTokens, bind_eq_ok, failIf_eq_ok] at hhop
  obtain ⟨_, -, _, -, _, -, _, -, _, -, _, ⟨_, hne, -⟩, -⟩ := hhop
  exact hne

/-- Every hop of a quoted path changes the token. -/
theorem isChain_of_outputsAlong {token : Address} {outputs : List ℤ}
    (hforward : outputsAlong (getHop env rest factory) token path amountIn = .ok outputs) :
    (token :: path).IsChain (· ≠ ·) := by
  induction path generalizing token amountIn outputs with
  | nil => exact .singleton token
  | cons next path ih =>
      obtain ⟨_, _, _, out, later, hprice, -, hlater, -⟩ := outputsAlong_cons hforward
      exact .cons_cons (ne_of_getHop hprice) (ih hlater)

/-- A quoted path has a hop. -/
theorem exists_eq_cons_of_quoted {amounts : List ℤ}
    (hforward : getPathAmountsOut env rest factory path amountIn = .ok amounts) :
    ∃ token next later, path = token :: next :: later ∧
      outputsAlong (getHop env rest factory) token (next :: later) amountIn = .ok amounts := by
  rcases path with _ | ⟨token, _ | ⟨next, later⟩⟩
  · exact (fail_ne_ok.mp hforward).elim
  · exact (fail_ne_ok.mp hforward).elim
  · rw [getPathAmountsOut, pathAmountsOut_eq] at hforward
    exact ⟨token, next, later, rfl, hforward⟩

theorem exists_pathQuote {amounts : List ℤ}
    (hforward : getPathAmountsOut env rest factory path amountIn = .ok amounts) :
    ∃ out, pathQuote env rest factory amountIn path = some out := by
  obtain ⟨token, next, later, -, houtputs⟩ := exists_eq_cons_of_quoted hforward
  obtain ⟨_, _, _, out, later, -, -, -, rfl⟩ := outputsAlong_cons houtputs
  exact ⟨_, pathQuote_eq_some.mpr ⟨_, hforward, List.getLast?_cons⟩⟩

theorem of_pathQuote_eq_some {out : ℤ} (hquote : pathQuote env rest factory amountIn path = some out) :
    0 < out ∧ path.IsChain (· ≠ ·) := by
  obtain ⟨amounts, hforward, hlast⟩ := pathQuote_eq_some.mp hquote
  obtain ⟨token, next, later, rfl, houtputs⟩ := exists_eq_cons_of_quoted hforward
  exact ⟨outputsAlong_pos houtputs out (List.mem_of_getLast? hlast), isChain_of_outputsAlong houtputs⟩

/-! ### The candidates -/

/-- The candidates of the search, in its order. -/
def candidates (hubs : List Address) (tokenIn tokenOut : Address) : List (List Address) :=
  [tokenIn, tokenOut] :: (oneHubPaths hubs tokenIn tokenOut ++ twoHubPaths hubs tokenIn tokenOut)

/-- The paths from one token to another over at most two hubs, which differ. -/
inductive Route (hubs : List Address) (tokenIn tokenOut : Address) : List Address → Prop where
  | direct : Route hubs tokenIn tokenOut [tokenIn, tokenOut]
  | oneHub {hub : Address} (hhub : hub ∈ hubs) : Route hubs tokenIn tokenOut [tokenIn, hub, tokenOut]
  | twoHubs {hubI hubJ : Address} (hi : hubI ∈ hubs) (hj : hubJ ∈ hubs) (hne : hubI ≠ hubJ) :
      Route hubs tokenIn tokenOut [tokenIn, hubI, hubJ, tokenOut]

/-- A path over two hubs that has left its last token, or comes back to its first. -/
def TurnsBack (tokenIn tokenOut : Address) (path : List Address) : Prop :=
  ∃ hubI hubJ, path = [tokenIn, hubI, hubJ, tokenOut] ∧ (hubI = tokenOut ∨ hubJ = tokenIn)

variable {hubs : List Address}

theorem mem_oneHubPaths : path ∈ oneHubPaths hubs tokenIn tokenOut ↔
    ∃ hub ∈ hubs, (hub ≠ tokenIn ∧ hub ≠ tokenOut) ∧ [tokenIn, hub, tokenOut] = path := by
  simp only [oneHubPaths, List.mem_map, List.mem_filter, decide_eq_true_eq, and_assoc]

theorem mem_twoHubPaths : path ∈ twoHubPaths hubs tokenIn tokenOut ↔
    ∃ (i j : ℕ) (hubI hubJ : Address), hubs[i]? = some hubI ∧ hubs[j]? = some hubJ ∧
      (i ≠ j ∧ hubI ≠ tokenIn ∧ hubI ≠ tokenOut ∧ hubJ ≠ tokenIn ∧ hubJ ≠ tokenOut) ∧
        [tokenIn, hubI, hubJ, tokenOut] = path := by
  simp only [twoHubPaths, List.mem_flatMap, List.mem_map, List.mem_filter, decide_eq_true_eq,
    Prod.exists, List.mk_mem_zipIdx_iff_getElem?, and_assoc]
  constructor
  · rintro ⟨hubI, i, hi, hubJ, j, hj, h⟩
    exact ⟨i, j, hubI, hubJ, hi, hj, h⟩
  · rintro ⟨i, j, hubI, hubJ, hi, hj, h⟩
    exact ⟨hubI, i, hi, hubJ, j, hj, h⟩

theorem route_of_mem_candidates (hpath : path ∈ candidates hubs tokenIn tokenOut)
    (hchain : path.IsChain (· ≠ ·)) :
    Route hubs tokenIn tokenOut path ∧ ¬TurnsBack tokenIn tokenOut path := by
  rcases List.mem_cons.mp hpath with rfl | hpath
  · exact ⟨.direct, fun ⟨_, _, hturns, _⟩ => by cases hturns⟩
  rcases List.mem_append.mp hpath with hpath | hpath
  · obtain ⟨hub, hhub, -, rfl⟩ := mem_oneHubPaths.mp hpath
    exact ⟨.oneHub hhub, fun ⟨_, _, hturns, _⟩ => by cases hturns⟩
  · obtain ⟨i, j, hubI, hubJ, hi, hj, ⟨-, -, hiOut, hjIn, -⟩, rfl⟩ := mem_twoHubPaths.mp hpath
    have hdiffer : hubI ≠ hubJ := by
      simp only [List.isChain_cons_cons] at hchain
      exact hchain.2.1
    refine ⟨.twoHubs (List.mem_of_getElem? hi) (List.mem_of_getElem? hj) hdiffer, ?_⟩
    rintro ⟨_, _, hturns, hend⟩
    cases hturns
    exact hend.elim hiOut hjIn

theorem mem_candidates_of_route (hroute : Route hubs tokenIn tokenOut path)
    (honward : ¬TurnsBack tokenIn tokenOut path) (hchain : path.IsChain (· ≠ ·)) :
    path ∈ candidates hubs tokenIn tokenOut := by
  cases hroute with
  | direct => exact List.mem_cons_self
  | oneHub hhub =>
      simp only [List.isChain_cons_cons] at hchain
      refine List.mem_cons_of_mem _ (List.mem_append_left _ (mem_oneHubPaths.mpr ?_))
      exact ⟨_, hhub, ⟨hchain.1.symm, hchain.2.1⟩, rfl⟩
  | @twoHubs hubI hubJ hi hj hdiffer =>
      simp only [List.isChain_cons_cons] at hchain
      obtain ⟨i, hi⟩ := List.mem_iff_getElem?.mp hi
      obtain ⟨j, hj⟩ := List.mem_iff_getElem?.mp hj
      have hplaces : i ≠ j := by
        rintro rfl
        exact hdiffer (Option.some.inj (hi.symm.trans hj))
      have hends : hubI ≠ tokenOut ∧ hubJ ≠ tokenIn :=
        ⟨fun hout => honward ⟨hubI, hubJ, rfl, .inl hout⟩,
          fun hin => honward ⟨hubI, hubJ, rfl, .inr hin⟩⟩
      refine List.mem_cons_of_mem _ (List.mem_append_right _ (mem_twoHubPaths.mpr ?_))
      exact ⟨i, j, hubI, hubJ, hi, hj, ⟨hplaces, hchain.1.symm, hends.1, hends.2, hchain.2.2.1⟩, rfl⟩

/-- A path that changes the token at every hop is a candidate exactly if it is a route that does not
turn back. -/
theorem mem_candidates_iff (hchain : path.IsChain (· ≠ ·)) : path ∈ candidates hubs tokenIn tokenOut ↔
    Route hubs tokenIn tokenOut path ∧ ¬TurnsBack tokenIn tokenOut path :=
  ⟨fun hpath => route_of_mem_candidates hpath hchain,
    fun hroute => mem_candidates_of_route hroute.1 hroute.2 hchain⟩

theorem exists_of_mem_candidates (hpath : path ∈ candidates hubs tokenIn tokenOut) :
    ∃ next later, path = tokenIn :: next :: later := by
  rcases List.mem_cons.mp hpath with rfl | hpath
  · exact ⟨_, _, rfl⟩
  rcases List.mem_append.mp hpath with hpath | hpath
  · obtain ⟨hub, -, -, rfl⟩ := mem_oneHubPaths.mp hpath
    exact ⟨_, _, rfl⟩
  · obtain ⟨_, _, _, _, -, -, -, rfl⟩ := mem_twoHubPaths.mp hpath
    exact ⟨_, _, rfl⟩

/-- **The search.** The first of the best candidates, if there is one. -/
theorem getBestPath_eq {storage : RouterStorage Address} (hanswers : RegistryAnswers env rest factory)
    (hfactory : storage.factory = some factory) (hne : tokenIn ≠ tokenOut) (hin : 0 < amountIn) :
    getBestPath env rest storage tokenIn tokenOut amountIn =
      okOr (best (pathQuote env rest factory amountIn) (candidates storage.hubs tokenIn tokenOut))
        .pairNotFound := by
  have hloop : (candidates storage.hubs tokenIn tokenOut).foldlM (improve env rest factory amountIn)
      ([], -1) = .ok ((best (pathQuote env rest factory amountIn)
        (candidates storage.hubs tokenIn tokenOut)).getD ([], -1)) := by
    apply foldlM_best
    · intro held path hpath hquote
      obtain ⟨next, later, rfl⟩ := exists_of_mem_candidates hpath
      rw [improve, quoteCandidate_eq hanswers, hquote]
      rfl
    · intro held path out hpath hquote
      obtain ⟨next, later, rfl⟩ := exists_of_mem_candidates hpath
      rw [improve, quoteCandidate_eq hanswers, hquote]
      rfl
    · intro path _ out hquote
      exact neg_one_lt_zero.trans (of_pathQuote_eq_some hquote).1
  rw [candidates] at hloop
  simp only [getBestPath, RouterStorage.getFactory, hfactory, failIf, if_neg hne, if_neg (not_le.mpr hin),
    okOr, bind, Except.bind, hloop]
  rw [← candidates]
  cases hbest : best (pathQuote env rest factory amountIn)
    (candidates storage.hubs tokenIn tokenOut) with
  | none => rfl
  | some result =>
      obtain ⟨path, out⟩ := result
      obtain ⟨-, hquote, -⟩ := of_best_eq_some hbest
      have hout := (of_pathQuote_eq_some hquote).1
      simp only [Option.getD_some, if_neg (not_lt.mpr hout.le)]
      rfl

/-! ### The best path -/

variable (env rest factory) in
/-- A search over these paths that has found the best, or failed because none can be quoted. -/
structure FindsBest (searched : List Address → Prop) (amountIn : ℤ)
    (result : Call RouterError (List Address × ℤ)) : Prop where
  found : ∀ path out, result = .ok (path, out) → searched path ∧
    (∃ amounts, getPathAmountsOut env rest factory path amountIn = .ok amounts ∧
      amounts.getLast? = some out) ∧
    ∀ other amounts last, searched other →
      getPathAmountsOut env rest factory other amountIn = .ok amounts →
      amounts.getLast? = some last → last ≤ out
  failed : (∃ fault, result = .error fault) ↔
    ∀ path amounts, searched path → getPathAmountsOut env rest factory path amountIn ≠ .ok amounts

/-- **The best path** over the hubs, among the routes that do not turn back. -/
theorem getBestPath_findsBest {storage : RouterStorage Address}
    (hanswers : RegistryAnswers env rest factory) (hfactory : storage.factory = some factory)
    (hne : tokenIn ≠ tokenOut) (hin : 0 < amountIn) :
    FindsBest env rest factory
      (fun path => Route storage.hubs tokenIn tokenOut path ∧ ¬TurnsBack tokenIn tokenOut path) amountIn
      (getBestPath env rest storage tokenIn tokenOut amountIn) := by
  have hsearched : ∀ path out, pathQuote env rest factory amountIn path = some out →
      (path ∈ candidates storage.hubs tokenIn tokenOut ↔
        Route storage.hubs tokenIn tokenOut path ∧ ¬TurnsBack tokenIn tokenOut path) :=
    fun path out hquote => mem_candidates_iff (of_pathQuote_eq_some hquote).2
  rw [getBestPath_eq hanswers hfactory hne hin]
  constructor
  · intro path out hresult
    obtain ⟨hpath, hquote, hbest⟩ := of_best_eq_some (okOr_eq_ok.mp hresult)
    refine ⟨(hsearched path out hquote).mp hpath, pathQuote_eq_some.mp hquote, ?_⟩
    intro other amounts last hother hforward hlast
    have hvalue := pathQuote_eq_some.mpr ⟨amounts, hforward, hlast⟩
    exact hbest other ((hsearched other last hvalue).mpr hother) last hvalue
  · have hfails : (∃ fault, okOr (best (pathQuote env rest factory amountIn)
        (candidates storage.hubs tokenIn tokenOut)) RouterError.pairNotFound = .error fault) ↔
        ∀ path ∈ candidates storage.hubs tokenIn tokenOut,
          pathQuote env rest factory amountIn path = none := by
      rw [← best_eq_none]
      cases best (pathQuote env rest factory amountIn) (candidates storage.hubs tokenIn tokenOut) with
      | none => exact iff_of_true ⟨_, rfl⟩ rfl
      | some result => exact iff_of_false (fun ⟨_, hfault⟩ => by cases hfault) nofun
    rw [hfails]
    constructor
    · intro hnone path amounts hroute hforward
      obtain ⟨out, hquote⟩ := exists_pathQuote hforward
      have hvalue := hnone path ((hsearched path out hquote).mpr hroute)
      exact absurd (hvalue.symm.trans hquote) nofun
    · intro hnone path hpath
      by_contra hsome
      obtain ⟨out, hquote⟩ := Option.ne_none_iff_exists'.mp hsome
      obtain ⟨amounts, hforward, -⟩ := pathQuote_eq_some.mp hquote
      exact hnone path amounts ((hsearched path out hquote).mp hpath) hforward

/-- The factory of a network is always there. -/
theorem registryAnswers_network {env : RouterEnv router (Network Address)} {net : Network Address}
    {envOf : (pair : Address) → Env pair} (hchain : env.chain = networkChain envOf) :
    RegistryAnswers env net factory where
  getPair tokenA tokenB := by
    rw [hchain]
    exact Option.some_ne_none _
  isPair pair := by
    rw [hchain]
    exact Option.some_ne_none _

def hubListed (hubs : List ℕ) : RouterStorage ℕ := { hubStorage with hubs }

theorem getBestPath_findsBest_hub :
    getBestPath hubEnv hubNetwork (hubListed [22, 21, 21]) 20 22 1000 = .ok ([20, 21, 22], 903) ∧
      FindsBest hubEnv hubNetwork 5
        (fun path => Route [22, 21, 21] 20 22 path ∧ ¬TurnsBack 20 22 path) 1000
        (getBestPath hubEnv hubNetwork (hubListed [22, 21, 21]) 20 22 1000) :=
  ⟨by decide +kernel, getBestPath_findsBest (registryAnswers_network rfl)
    (show (hubListed [22, 21, 21]).factory = some 5 from rfl) (by decide) (by decide)⟩

/-- Token 20 is traded for 21 in a small pool, and for 22 in one with a very large reserve of 22. -/
def detourNetwork : Network ℕ :=
  { hubNetwork with
    registry := fun _ tokenA tokenB =>
      if (tokenA, tokenB) = (20, 21) ∨ (tokenA, tokenB) = (21, 20) then some 10
      else if (tokenA, tokenB) = (20, 22) ∨ (tokenA, tokenB) = (22, 20) then some 11
      else none
    pair := fun pair =>
      { hubPair 20 21 with
        pairState := some
          { factory := 5, tokenA := 20, tokenB := if pair = 10 then 21 else 22, lpToken := 40
            reserveA := 2000, reserveB := if pair = 10 then 2000 else 2 ^ 100
            blockTimestampLast := 1, kLast := 0 } } }

/-- The direct quote overflows, and a way back through token 20 would make the amount small enough. -/
theorem getBestPath_skips_detour :
    ¬∀ (net : Network ℕ) (storage : RouterStorage ℕ) (factory tokenIn tokenOut : ℕ) (amountIn : ℤ),
      RegistryAnswers hubEnv net factory → storage.factory = some factory → tokenIn ≠ tokenOut →
        0 < amountIn → FindsBest hubEnv net factory (Route storage.hubs tokenIn tokenOut) amountIn
          (getBestPath hubEnv net storage tokenIn tokenOut amountIn) := by
  intro hfinds
  have hfailed := (hfinds detourNetwork (hubListed [21, 20]) 5 20 22 (2 ^ 30)
    (registryAnswers_network rfl) rfl (by decide) (by decide)).failed
  have herror : getBestPath hubEnv detourNetwork (hubListed [21, 20]) 20 22 (2 ^ 30) =
      .error (.error .pairNotFound) := by decide +kernel
  have hroute : Route (hubListed [21, 20]).hubs 20 22 [20, 21, 20, 22] :=
    .twoHubs (by decide) (by decide) (by decide)
  have hquoted : (getPathAmountsOut hubEnv detourNetwork 5 [20, 21, 20, 22] (2 ^ 30)).isOk = true := by
    decide +kernel
  cases hforward : getPathAmountsOut hubEnv detourNetwork 5 [20, 21, 20, 22] (2 ^ 30) with
  | error fault =>
      rw [hforward] at hquoted
      cases hquoted
  | ok amounts => exact hfailed.mp ⟨_, herror⟩ _ amounts hroute hforward

end CoralSwap.Router
