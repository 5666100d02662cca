/-!
The commands that the formula renderer draws. Any other command would be printed letter by letter.
-/

set_option autoImplicit false

namespace MarkdownDocx.Latex

/-- Their names, without the backslash, in the order of code points. -/
def knownNameRows : List String :=
  ["AC APLboxquestion APLboxupcaret APLcomment APLdownarrowbox APLinput APLinv APLleftarrowbox",
    "APLlog APLnotbackslash APLnotslash APLrightarrowbox APLuparrowbox And Angstroem Angstrom",
    "Aries Barv Bbb BbbA BbbB BbbC BbbD BbbE BbbF BbbG BbbGamma BbbH BbbI BbbJ BbbK BbbL BbbM",
    "BbbN BbbO BbbP BbbPi BbbQ BbbR BbbS BbbT BbbU BbbV BbbW BbbX BbbY BbbZ Bbba Bbbb Bbbc Bbbd",
    "Bbbe Bbbeight Bbbf Bbbfive Bbbfour Bbbg Bbbgamma Bbbh Bbbi Bbbj Bbbk Bbbl Bbbm Bbbn",
    "Bbbnine Bbbo Bbbone Bbbp Bbbpi Bbbq Bbbr Bbbs Bbbseven Bbbsix Bbbsum Bbbt Bbbthree Bbbtwo",
    "Bbbu Bbbv Bbbw Bbbx Bbby Bbbz Bbbzero Big Bigg Biggl Biggm Biggr Bigl Bigm Bigr Bmatrix",
    "Bot Box Bumpeq CIRCLE Cap CapitalDifferentialD CheckedBox Circle Colon Coloneq Coloneqq",
    "ComplexI ComplexJ Cup DD DDDot DDot DDownarrow DashV DashVDash Dashv Ddownarrow",
    "DeclareMathOperator Delta Diamond Diamondblack Diamonddot DifferentialD Digamma Dot Doteq",
    "DownArrowBar DownLeftTeeVector DownLeftVectorBar DownRightTeeVector DownRightVectorBar",
    "Downarrow Equal Equiv Euler Eulerconst Exclam ExponetialE Finv Game Gamma Gemini",
    "GreaterLess GreaterTilde Gt HBar Hermaphrodite Huge Im Join Jupiter Koppa LARGE LEFTCIRCLE",
    "LEFTcircle LHD LLeftarrow LVec LaTeX Lambda Large Lbag Lbrack Lbrbrak Ldsh LeftArrowBar",
    "LeftDownTeeVector LeftDownVectorBar LeftTeeVector LeftTriangle LeftTriangleBar",
    "LeftUpTeeVector LeftUpVectorBar LeftVectorBar Leftarrow Leftrightarrow Leo LessTilde Libra",
    "Lleftarrow Longleftarrow Longleftrightarrow Longmappedfrom Longmapsfrom Longmapsto",
    "Longrightarrow Lparen Lparengtr Lsh Lt Lvzigzag Mappedfrom MapsDown MapsUp Mapsfrom Mapsto",
    "Mars Mercury Mho Micro Nearrow Neptune NestedGreaterGreater NestedLessLess Not",
    "NotGreaterLess NotGreaterTilde NotLeftTriangle NotLessTilde NotRightTriangle Nwarrow Omega",
    "Otimes Perp Phi Pi Planckconst Pluto Pr Prec PrecedesSlantEqual PrecedesTilde PropertyLine",
    "Proportion Psi QED Qoppa Question RHD RIGHTCIRCLE RIGHTcircle RRightarrow Rbag Rbrack",
    "Rbrbrak Rdsh Re RightArrowBar RightDownTeeVector RightDownVectorBar RightTeeVector",
    "RightTriangle RightTriangleBar RightUpTeeVector RightUpVectorBar RightVectorBar Rightarrow",
    "Rparen Rparenless Rrightarrow Rsh Rvzigzag S Same Sampi Saturn Scorpio Searrow SetDelayed",
    "Sigma Space Sqcap Sqcup Square Stigma Subset Succ SucceedsSlantEqual SucceedsTilde Sun",
    "Supset Swarrow Taurus TeX Theta Tiny Top UUparrow UpArrowBar Uparrow Updownarrow Upsilon",
    "Uranus Uuparrow VDash VERT Vbar Vdash Vec Vee Venus Vert Vmatrix Vvdash Vvert Wedge XBox",
    "Xi Yup Zbar above abovewithdelims accurrent acidfree acute acwcirclearrow",
    "acwgapcirclearrow acwleftarcarrow acwopencirclearrow acwoverarcarrow acwunderarcarrow",
    "adots aleph align alpha alphaup amalg ampersand anchor angdnr angle angles angleubar",
    "annuity apprge apprle approx approxeq approxeqq approxident aquarius arccos arcctg arceq",
    "arcsin arctan arctg argmax argmin aries array arrowbullet assert ast asteq asteraccent",
    "astrosun asymp atop atopwithdelims atsign awint bNot backcong backdprime backepsilon",
    "backprime backsim backsimeq backslash backtrprime bagmember ballotcheck ballotx bar barV",
    "barcap barcup bardownharpoonleft bardownharpoonright barin barleftarrow",
    "barleftarrowrightarrowba barleftharpoon barleftharpoondown barleftharpoonup",
    "barovernorthwestarrow barrightarrowdiamond barrightharpoon barrightharpoondown",
    "barrightharpoonup baruparrow barupharpoonleft barupharpoonright barvee barwedge bbrktbrk",
    "bcancel bdtriplevdash because begin benzenr beta betaup beth between bf big",
    "bigblacktriangledown bigblacktriangleup bigbot bigcap bigcirc bigcup bigcupdot bigg biggl",
    "biggm biggr biginterleave bigl bigm bigodot bigoplus bigotimes bigr bigslopedvee",
    "bigslopedwedge bigsqcap bigsqcup bigstar bigtalloblong bigtimes bigtop bigtriangledown",
    "bigtriangleleft bigtriangleup biguplus bigvee bigwedge bigwhitestar bij binampersand",
    "bindnasrepma binom biohazard blackcircledownarrow blackcircledrightdot blackcircledtwodots",
    "blackcircleulquadwhite blackdiamonddownarrow blackhourglass blackinwhitediamond",
    "blackinwhitesquare blacklefthalfcircle blacklozenge blackpointerleft blackpointerright",
    "blackrighthalfcircle blacksmiley blacksquare blacktriangle blacktriangledown",
    "blacktriangleleft blacktriangleright blacktriangleup blkhorzoval blkvertoval blockfull",
    "blockhalfshaded blocklefthalf blocklowhalf blockqtrshaded blockrighthalf",
    "blockthreeqtrshaded blockuphalf bm bmatrix bmod bold boldsymbol bot botsemicircle bowtie",
    "boxast boxbar boxbox boxbslash boxcircle boxdiag boxdot boxed boxminus boxonbox boxplus",
    "boxslash boxtimes boy bra brace brack braket breve bsimilarleftarrow bsimilarrightarrow",
    "bsolhsub btimes bullet bullseye bumpeq bumpeqq buni cal cancel cancer candra cap capbarcup",
    "capdot capovercup capricornus capwedge caretinsert carriagereturn cases cat",
    "ccwundercurvearrow cdot cdotp cdots cent centerdot cfrac ch check checkmark chi chiup",
    "choose cirE cirbot circ circeq circlearrowleft circlearrowright circlebottomhalfblack",
    "circledR circledS circledast circledbslash circledbullet circledcirc circleddash",
    "circledequal circledgtr circledless circledownarrow circledparallel circledrightdot",
    "circledstar circledtwodots circledvert circledwhitebullet circlehbar circlelefthalfblack",
    "circlellquad circlelrquad circleonleftarrow circleonrightarrow circlerighthalfblack",
    "circletophalfblack circleulquad circleurquad circleurquadblack circlevertfill cirfnint",
    "cirmid cirscir clap class clockoint closedvarcap closedvarcup closedvarcupsmashprod",
    "closure clubsuit cntclockoint colon coloneq coloneqq color colorbox comma commaminus comp",
    "complement concavediamond concavediamondtickleft concavediamondtickright cong congdot",
    "conictaper conjquant coprod corresponds cos cosec cosh cot cotg coth cr csc csub csube",
    "csup csupe ctg cth cuberoot cup cupbarcap cupdot cupleftarrow cupovercap cupvee",
    "curlyeqprec curlyeqsucc curlyvee curlywedge curvearrowleft curvearrowleftplus",
    "curvearrowright curvearrowrightminus cwcirclearrow cwgapcirclearrow cwopencirclearrow",
    "cwrightarcarrow cwundercurvearrow dagger daleth danger dashV dashVdash dasharrow dashcolon",
    "dashleftarrow dashleftharpoondown dashrightarrow dashrightharpoondown dashv dbinom dbkarow",
    "dbloint dd ddagger ddddot dddot ddot ddots ddotseq def deg degree delta deltaup det dfrac",
    "diagdown diagup diameter diamond diamondbotblack diamondcdot diamondleftarrow",
    "diamondleftarrowbar diamondleftblack diamondrightblack diamondsuit diamondtopblack dicei",
    "diceii diceiii diceiv dicev dicevi digamma dim dingasterisk dint disin disjquant",
    "displaylines displaystyle div divideontimes divslash dlsh dot doteq doteqdot dotequal",
    "dotequiv dotminus dotplus dots dotsb dotsc dotsi dotsim dotsm dotsminusdots dotso",
    "dottedcircle dottedsquare dottimes doublebarvee doublebarwedge doubleplus downarrow",
    "downarrowbar downarrowbarred downarrowuparrow downdasharrow downdownarrows",
    "downdownharpoons downfishtail downharpoonleft downharpoonleftbar downharpoonright",
    "downharpoonrightbar downharpoonsleftright downrightcurvedarrow downtriangleleftblack",
    "downtrianglerightblack downuparrows downupharpoons downupharpoonsleftright downwhitearrow",
    "downzigzagarrow dprime draftingarrow drbkarow dres droang drsh dsol dsub dualmap duni",
    "earth ee egsdot eighthnote elinters ell elsdot emph emptyset emptysetoarr emptysetoarrl",
    "emptysetobar emptysetocirc enclosecircle enclosediamond enclosesquare enclosetriangle end",
    "enleadertwodots enspace eparsl epsilon epsilonup eqalign eqalignno eqcirc eqcolon eqdef",
    "eqdot eqeq eqeqeq eqgtr eqless eqqcolon eqqgtr eqqless eqqplus eqqsim eqqslantgtr",
    "eqqslantless eqsim eqslantgtr eqslantless equal equalleftarrow equalparallel",
    "equalrightarrow equilibrium equiv equivDD equivVert equivVvert eqvparsl errbarblackcircle",
    "errbarblackdiamond errbarblacksquare errbarcircle errbardiamond errbarsquare eta etaup eth",
    "euro exclam exi exists exp fallingdotseq fatsemi fbowtie fbox fcmp fcolorbox",
    "fdiagovnearrow fdiagovrdiag female ffun finj fint fisheye flat fltns footnotesize forall",
    "forks forksnot forkv fourth fourthroot fourvdots frac fracslash frak frown frownie",
    "fullouterjoin fun gamma gammaup gcd ge gemini genfrac geq geqq geqqslant geqslant gescc",
    "gesdot gesdoto gesdotol gesles gets gg ggcurly ggg gggnest gggtr gimel girl glE gla",
    "gleichstark glj gnapprox gneq gneqq gnsim grave greater gsime gsiml gt gtcc gtcir gtlpar",
    "gtquest gtrapprox gtrarr gtrdot gtreqless gtreqqless gtrless gtrsim gvertneqq",
    "harrowextender hash hat hatapprox hbar hbox hdashline heartsuit hermitmatrix hexagon",
    "hexagonblack hfil hide hknearrow hknwarrow hksearow hkswarow hline hom hookleftarrow",
    "hookrightarrow horizbar hourglass house hphantom hrectangle hrectangleblack href hskip",
    "hslash hspace huge hyphenbullet hzigzag iddots idotsint iff ii iiiint iiint iinfin iint",
    "imageof imath impliedby implies in increment inf infty inj injlim int intBar intbar",
    "intbottom intcap intclockwise intcup intercal interleave intextender intlarhk intop",
    "intprod intprodr inttop intx invamp invdiameter inversebullet inversewhitecircle invlazys",
    "invneg invnot invsmileface invwhitelowerhalfcircle invwhiteupperhalfcircle iota iotaup",
    "isinE isindot isinobar isins isinvb it jj jmath jupiter kappa kappaup ker kern",
    "kernelcontraction ket koppa lAngle lBrace lBrack lParen lVert lambda lambdaup land lang",
    "langle langledot laplac large lat late lbag lblkbrbrak lblot lbrace lbracelend lbracemid",
    "lbraceuend lbrack lbrackextender lbracklend lbracklltick lbrackubar lbrackuend",
    "lbrackultick lbrbrak lceil lcurvyangle ldotp ldots le leadsto left leftarrow",
    "leftarrowapprox leftarrowbackapprox leftarrowbsimilar leftarrowless leftarrowonoplus",
    "leftarrowplus leftarrowshortrightarrow leftarrowsimilar leftarrowsubset leftarrowtail",
    "leftarrowtriangle leftarrowx leftbarharpoon leftbkarrow leftcurvedarrow leftdasharrow",
    "leftdbkarrow leftdbltail leftdotarrow leftdowncurvedarrow leftfishtail leftharpoonaccent",
    "leftharpoondown leftharpoondownbar leftharpoonsupdown leftharpoonup leftharpoonupbar",
    "leftharpoonupdash leftleftarrows leftleftharpoons leftmoon leftouterjoin leftrightarrow",
    "leftrightarrowcircle leftrightarrows leftrightarrowtriangle leftrightharpoon",
    "leftrightharpoondown leftrightharpoondowndown leftrightharpoondownup leftrightharpoons",
    "leftrightharpoonsdown leftrightharpoonsup leftrightharpoonup leftrightharpoonupdown",
    "leftrightharpoonupup leftrightsquigarrow leftroot leftslice leftsquigarrow lefttail",
    "leftthreearrows leftthreetimes leftturn leftupdownharpoon leftwavearrow leftwhitearrow leo",
    "leq leqq leqqslant leqslant lescc lesdot lesdoto lesdotor lesges less lessapprox lessdot",
    "lesseqgtr lesseqqgtr lessgtr lesssim lfbowtie lfloor lftimes lg lgE lgblkcircle",
    "lgblksquare lgroup lgwhtcircle lgwhtsquare lhd libra lightning lim limg liminf limits",
    "limsup linefeed ll llangle llap llarc llblacktriangle llbracket llcorner llcurly lll",
    "llless lllnest llparenthesis lltriangle lmoustache ln lnapprox lneq lneqq lnot lnsim log",
    "longdashv longdivision longleftarrow longleftrightarrow longleftsquigarrow longmappedfrom",
    "longmapsfrom longmapsto longrightarrow longrightsquigarrow looparrowleft looparrowright",
    "lor lower lowint lozenge lozengeminus lparen lparenextender lparenlend lparenless",
    "lparenuend lrarc lrblacktriangle lrcorner lrtimes lrtriangle lrtriangleeq lsime lsimg",
    "lsqhook lt ltcc ltcir ltimes ltlarr ltquest ltrivb lvboxline lvec lvert lvertneqq lvzigzag",
    "male maltese mappedfrom mapsdown mapsfrom mapsto mapsup math mathbb mathbf mathbin mathcal",
    "mathcent mathchoice mathclap mathclose mathcolon mathdollar matheth mathfrak mathinner",
    "mathit mathllap mathnormal mathop mathopen mathord mathpunct mathratio mathrel mathring",
    "mathrlap mathrm mathscr mathsf mathsfit mathslash mathsterling mathstrut mathtt matrix max",
    "mbfA mbfAlpha mbfB mbfBeta mbfC mbfChi mbfD mbfDelta mbfDigamma mbfE mbfEpsilon mbfEta",
    "mbfF mbfG mbfGamma mbfH mbfI mbfIota mbfJ mbfK mbfKappa mbfL mbfLambda mbfM mbfMu mbfN",
    "mbfNu mbfO mbfOmega mbfOmicron mbfP mbfPhi mbfPi mbfPsi mbfQ mbfR mbfRho mbfS mbfSigma",
    "mbfT mbfTau mbfTheta mbfU mbfUpsilon mbfV mbfW mbfX mbfXi mbfY mbfZ mbfZeta mbfa mbfalpha",
    "mbfb mbfbeta mbfc mbfchi mbfd mbfdelta mbfdigamma mbfe mbfepsilon mbfeta mbff mbffrakA",
    "mbffrakB mbffrakC mbffrakD mbffrakE mbffrakF mbffrakG mbffrakH mbffrakI mbffrakJ mbffrakK",
    "mbffrakL mbffrakM mbffrakN mbffrakO mbffrakP mbffrakQ mbffrakR mbffrakS mbffrakT mbffrakU",
    "mbffrakV mbffrakW mbffrakX mbffrakY mbffrakZ mbffraka mbffrakb mbffrakc mbffrakd mbffrake",
    "mbffrakf mbffrakg mbffrakh mbffraki mbffrakj mbffrakk mbffrakl mbffrakm mbffrakn mbffrako",
    "mbffrakp mbffrakq mbffrakr mbffraks mbffrakt mbffraku mbffrakv mbffrakw mbffrakx mbffraky",
    "mbffrakz mbfg mbfgamma mbfh mbfi mbfiota mbfitA mbfitAlpha mbfitB mbfitBeta mbfitC",
    "mbfitChi mbfitD mbfitDelta mbfitE mbfitEpsilon mbfitEta mbfitF mbfitG mbfitGamma mbfitH",
    "mbfitI mbfitIota mbfitJ mbfitK mbfitKappa mbfitL mbfitLambda mbfitM mbfitMu mbfitN mbfitNu",
    "mbfitO mbfitOmega mbfitOmicron mbfitP mbfitPhi mbfitPi mbfitPsi mbfitQ mbfitR mbfitRho",
    "mbfitS mbfitSigma mbfitT mbfitTau mbfitTheta mbfitU mbfitUpsilon mbfitV mbfitW mbfitX",
    "mbfitXi mbfitY mbfitZ mbfitZeta mbfita mbfitalpha mbfitb mbfitbeta mbfitc mbfitchi mbfitd",
    "mbfitdelta mbfite mbfitepsilon mbfiteta mbfitf mbfitg mbfitgamma mbfith mbfiti mbfitiota",
    "mbfitj mbfitk mbfitkappa mbfitl mbfitlambda mbfitm mbfitmu mbfitn mbfitnabla mbfitnu",
    "mbfito mbfitomega mbfitomicron mbfitp mbfitpartial mbfitphi mbfitpi mbfitpsi mbfitq mbfitr",
    "mbfitrho mbfits mbfitsansA mbfitsansAlpha mbfitsansB mbfitsansBeta mbfitsansC mbfitsansChi",
    "mbfitsansD mbfitsansDelta mbfitsansE mbfitsansEpsilon mbfitsansEta mbfitsansF mbfitsansG",
    "mbfitsansGamma mbfitsansH mbfitsansI mbfitsansIota mbfitsansJ mbfitsansK mbfitsansKappa",
    "mbfitsansL mbfitsansLambda mbfitsansM mbfitsansMu mbfitsansN mbfitsansNu mbfitsansO",
    "mbfitsansOmega mbfitsansOmicron mbfitsansP mbfitsansPhi mbfitsansPi mbfitsansPsi",
    "mbfitsansQ mbfitsansR mbfitsansRho mbfitsansS mbfitsansSigma mbfitsansT mbfitsansTau",
    "mbfitsansTheta mbfitsansU mbfitsansUpsilon mbfitsansV mbfitsansW mbfitsansX mbfitsansXi",
    "mbfitsansY mbfitsansZ mbfitsansZeta mbfitsansa mbfitsansalpha mbfitsansb mbfitsansbeta",
    "mbfitsansc mbfitsanschi mbfitsansd mbfitsansdelta mbfitsanse mbfitsansepsilon mbfitsanseta",
    "mbfitsansf mbfitsansg mbfitsansgamma mbfitsansh mbfitsansi mbfitsansiota mbfitsansj",
    "mbfitsansk mbfitsanskappa mbfitsansl mbfitsanslambda mbfitsansm mbfitsansmu mbfitsansn",
    "mbfitsansnabla mbfitsansnu mbfitsanso mbfitsansomega mbfitsansomicron mbfitsansp",
    "mbfitsanspartial mbfitsansphi mbfitsanspi mbfitsanspsi mbfitsansq mbfitsansr mbfitsansrho",
    "mbfitsanss mbfitsanssigma mbfitsanst mbfitsanstau mbfitsanstheta mbfitsansu",
    "mbfitsansupsilon mbfitsansv mbfitsansvarTheta mbfitsansvarepsilon mbfitsansvarkappa",
    "mbfitsansvarphi mbfitsansvarpi mbfitsansvarrho mbfitsansvarsigma mbfitsansvartheta",
    "mbfitsansw mbfitsansx mbfitsansxi mbfitsansy mbfitsansz mbfitsanszeta mbfitsigma mbfitt",
    "mbfittau mbfittheta mbfitu mbfitupsilon mbfitv mbfitvarTheta mbfitvarepsilon mbfitvarkappa",
    "mbfitvarphi mbfitvarpi mbfitvarrho mbfitvarsigma mbfitvartheta mbfitw mbfitx mbfitxi",
    "mbfity mbfitz mbfitzeta mbfj mbfk mbfkappa mbfl mbflambda mbfm mbfmu mbfn mbfnabla mbfnu",
    "mbfo mbfomega mbfomicron mbfp mbfpartial mbfphi mbfpi mbfpsi mbfq mbfr mbfrho mbfs",
    "mbfsansA mbfsansAlpha mbfsansB mbfsansBeta mbfsansC mbfsansChi mbfsansD mbfsansDelta",
    "mbfsansE mbfsansEpsilon mbfsansEta mbfsansF mbfsansG mbfsansGamma mbfsansH mbfsansI",
    "mbfsansIota mbfsansJ mbfsansK mbfsansKappa mbfsansL mbfsansLambda mbfsansM mbfsansMu",
    "mbfsansN mbfsansNu mbfsansO mbfsansOmega mbfsansOmicron mbfsansP mbfsansPhi mbfsansPi",
    "mbfsansPsi mbfsansQ mbfsansR mbfsansRho mbfsansS mbfsansSigma mbfsansT mbfsansTau",
    "mbfsansTheta mbfsansU mbfsansUpsilon mbfsansV mbfsansW mbfsansX mbfsansXi mbfsansY",
    "mbfsansZ mbfsansZeta mbfsansa mbfsansalpha mbfsansb mbfsansbeta mbfsansc mbfsanschi",
    "mbfsansd mbfsansdelta mbfsanse mbfsanseight mbfsansepsilon mbfsanseta mbfsansf mbfsansfive",
    "mbfsansfour mbfsansg mbfsansgamma mbfsansh mbfsansi mbfsansiota mbfsansj mbfsansk",
    "mbfsanskappa mbfsansl mbfsanslambda mbfsansm mbfsansmu mbfsansn mbfsansnabla mbfsansnine",
    "mbfsansnu mbfsanso mbfsansomega mbfsansomicron mbfsansone mbfsansp mbfsanspartial",
    "mbfsansphi mbfsanspi mbfsanspsi mbfsansq mbfsansr mbfsansrho mbfsanss mbfsansseven",
    "mbfsanssigma mbfsanssix mbfsanst mbfsanstau mbfsanstheta mbfsansthree mbfsanstwo mbfsansu",
    "mbfsansupsilon mbfsansv mbfsansvarTheta mbfsansvarepsilon mbfsansvarkappa mbfsansvarphi",
    "mbfsansvarpi mbfsansvarrho mbfsansvarsigma mbfsansvartheta mbfsansw mbfsansx mbfsansxi",
    "mbfsansy mbfsansz mbfsanszero mbfsanszeta mbfscrA mbfscrB mbfscrC mbfscrD mbfscrE mbfscrF",
    "mbfscrG mbfscrH mbfscrI mbfscrJ mbfscrK mbfscrL mbfscrM mbfscrN mbfscrO mbfscrP mbfscrQ",
    "mbfscrR mbfscrS mbfscrT mbfscrU mbfscrV mbfscrW mbfscrX mbfscrY mbfscrZ mbfscra mbfscrb",
    "mbfscrc mbfscrd mbfscre mbfscrf mbfscrg mbfscrh mbfscri mbfscrj mbfscrk mbfscrl mbfscrm",
    "mbfscrn mbfscro mbfscrp mbfscrq mbfscrr mbfscrs mbfscrt mbfscru mbfscrv mbfscrw mbfscrx",
    "mbfscry mbfscrz mbfsigma mbft mbftau mbftheta mbfu mbfupsilon mbfv mbfvarTheta",
    "mbfvarepsilon mbfvarkappa mbfvarphi mbfvarpi mbfvarrho mbfvarsigma mbfvartheta mbfw mbfx",
    "mbfxi mbfy mbfz mbfzeta mbox mdblkcircle mdblkdiamond mdblklozenge mdblksquare",
    "mdlgblkcircle mdlgblkdiamond mdlgblklozenge mdlgblksquare mdlgwhtcircle mdlgwhtdiamond",
    "mdlgwhtlozenge mdlgwhtsquare mdsmblkcircle mdsmblksquare mdsmwhtcircle mdsmwhtsquare",
    "mdwhtcircle mdwhtdiamond mdwhtlozenge mdwhtsquare measangledltosw measangledrtose",
    "measangleldtosw measanglelutonw measanglerdtose measanglerutone measangleultonw",
    "measangleurtone measeq measuredangle measuredangleleft measuredrightangle medblackstar",
    "medbullet medcirc medspace medwhitestar mercury mfrakA mfrakB mfrakC mfrakD mfrakE mfrakF",
    "mfrakG mfrakH mfrakJ mfrakK mfrakL mfrakM mfrakN mfrakO mfrakP mfrakQ mfrakS mfrakT mfrakU",
    "mfrakV mfrakW mfrakX mfrakY mfrakZ mfraka mfrakb mfrakc mfrakd mfrake mfrakf mfrakg mfrakh",
    "mfraki mfrakj mfrakk mfrakl mfrakm mfrakn mfrako mfrakp mfrakq mfrakr mfraks mfrakt mfraku",
    "mfrakv mfrakw mfrakx mfraky mfrakz mho mid midbarvee midbarwedge midcir middle min minus",
    "minusdot minusfdots minusrdots mit mitA mitAlpha mitB mitBbbD mitBbbd mitBbbe mitBbbi",
    "mitBbbj mitBeta mitC mitChi mitD mitDelta mitE mitEpsilon mitEta mitF mitG mitGamma mitH",
    "mitI mitIota mitJ mitK mitKappa mitL mitLambda mitM mitMu mitN mitNu mitO mitOmega",
    "mitOmicron mitP mitPhi mitPi mitPsi mitQ mitR mitRho mitS mitSigma mitT mitTau mitTheta",
    "mitU mitUpsilon mitV mitW mitX mitXi mitY mitZ mitZeta mita mitalpha mitb mitbeta mitc",
    "mitchi mitd mitdelta mite mitepsilon miteta mitf mitg mitgamma miti mitiota mitj mitk",
    "mitkappa mitl mitlambda mitm mitmu mitn mitnabla mitnu mito mitomega mitomicron mitp",
    "mitpartial mitphi mitpi mitpsi mitq mitr mitrho mits mitsansA mitsansB mitsansC mitsansD",
    "mitsansE mitsansF mitsansG mitsansH mitsansI mitsansJ mitsansK mitsansL mitsansM mitsansN",
    "mitsansO mitsansP mitsansQ mitsansR mitsansS mitsansT mitsansU mitsansV mitsansW mitsansX",
    "mitsansY mitsansZ mitsansa mitsansb mitsansc mitsansd mitsanse mitsansf mitsansg mitsansh",
    "mitsansi mitsansj mitsansk mitsansl mitsansm mitsansn mitsanso mitsansp mitsansq mitsansr",
    "mitsanss mitsanst mitsansu mitsansv mitsansw mitsansx mitsansy mitsansz mitsigma mitt",
    "mittau mittheta mitu mitupsilon mitv mitvarTheta mitvarepsilon mitvarkappa mitvarphi",
    "mitvarpi mitvarrho mitvarsigma mitvartheta mitw mitx mitxi mity mitz mitzeta mkern mlcp",
    "mod models modtwosum moveleft moveright mp msansA msansB msansC msansD msansE msansF",
    "msansG msansH msansI msansJ msansK msansL msansM msansN msansO msansP msansQ msansR msansS",
    "msansT msansU msansV msansW msansX msansY msansZ msansa msansb msansc msansd msanse",
    "msanseight msansf msansfive msansfour msansg msansh msansi msansj msansk msansl msansm",
    "msansn msansnine msanso msansone msansp msansq msansr msanss msansseven msanssix msanst",
    "msansthree msanstwo msansu msansv msansw msansx msansy msansz msanszero mscrA mscrB mscrC",
    "mscrD mscrE mscrF mscrG mscrH mscrI mscrJ mscrK mscrL mscrM mscrN mscrO mscrP mscrQ mscrR",
    "mscrS mscrT mscrU mscrV mscrW mscrX mscrY mscrZ mscra mscrb mscrc mscrd mscre mscrf mscrg",
    "mscrh mscri mscrj mscrk mscrl mscrm mscrn mscro mscrp mscrq mscrr mscrs mscrt mscru mscrv",
    "mscrw mscrx mscry mscrz mskip mspace mttA mttB mttC mttD mttE mttF mttG mttH mttI mttJ",
    "mttK mttL mttM mttN mttO mttP mttQ mttR mttS mttT mttU mttV mttW mttX mttY mttZ mtta mttb",
    "mttc mttd mtte mtteight mttf mttfive mttfour mttg mtth mtti mttj mttk mttl mttm mttn",
    "mttnine mtto mttone mttp mttq mttr mtts mttseven mttsix mttt mttthree mtttwo mttu mttv",
    "mttw mttx mtty mttz mttzero mu multimap multimapboth multimapdotbothA multimapdotbothB",
    "multimapinv muup nHdownarrow nHuparrow nLeftarrow nLeftrightarrow nRightarrow nVDash",
    "nVdash nVleftarrow nVleftarrowtail nVleftrightarrow nVrightarrow nVrightarrowtail",
    "nVtwoheadleftarrow nVtwoheadleftarrowtail nVtwoheadrightarrow nVtwoheadrightarrowtail",
    "nabla napprox nasymp natural ncong ndres ne nearrow neg negmedspace negthickspace",
    "negthinspace neovnwarrow neovsearrow neptune neq nequiv neswarrow neuter newcommand",
    "newenvironment nexi nexists ngeq ngeqq ngeqslant ngtr ngtrless ngtrsim nhVvert nhpar ni",
    "nin niobar nis nisd nleftarrow nleftrightarrow nleq nleqslant nless nlessgtr nlesssim nmid",
    "nni nobreakspace nolimits nonumber normalsize not notag notasymp notbackslash notin notni",
    "notowner notowns notslash nparallel npolint nprec npreccurlyeq npreceq nrightarrow nrres",
    "nshortmid nshortparallel nsim nsime nsimeq nsqsubseteq nsqsupseteq nsubset nsubseteq",
    "nsubseteqq nsucc nsucccurlyeq nsucceq nsupset nsupseteq ntriangleleft ntrianglelefteq",
    "ntriangleright ntrianglerighteq nu nunlhd nunrhd nuup nvDash nvLeftarrow nvLeftrightarrow",
    "nvRightarrow nvdash nvinfty nvleftarrow nvleftarrowtail nvleftrightarrow nvrightarrow",
    "nvrightarrowtail nvtwoheadleftarrow nvtwoheadleftarrowtail nvtwoheadrightarrow",
    "nvtwoheadrightarrowtail nwarrow nwovnearrow nwsearrow obar obot obrbrak obslash ocirc",
    "ocommatopright octothorpe odiv odot odotslashdot ogreaterthan oiiint oiint oint",
    "ointctrclockwise olcross oldstyle olessthan omega omegaup omicron ominus operatorname",
    "operatornamewithlimits operp oplus opluslhrim oplusrhrim origof oslash otimes otimeshat",
    "otimeslhrim otimesrhrim oturnedcomma over overbar overbrace overbracket overleftarrow",
    "overleftrightarrow overline overparen overrightarrow overset ovhook owns parallel",
    "parallelogram parallelogramblack parsim partial partialmeetcontraction partialup pencil",
    "pentagon pentagonblack percent period perp perps pfun phantom phi phiup pi pinj pisces",
    "pitchfork piup plim plus plusdot pluseqq plushat plussim plussubtwo plustrif pluto pm",
    "pmatrix pmb pmod pod pointint pointright postalmark pounds prec precapprox preccurlyeq",
    "preceq preceqq precnapprox precneq precneqq precnsim precsim prime prod profline profsurf",
    "project projlim propto prurel psi psiup psur psurj pullback pushout qoppa qprime qquad",
    "quad quarternote questeq question rAngle rBrace rBrack rParen rVert radiation raise rang",
    "rangle rangledot rangledownzigzagarrow rbag rblkbrbrak rblot rbrace rbracelend rbracemid",
    "rbraceuend rbrack rbrackextender rbracklend rbracklrtick rbrackubar rbrackuend",
    "rbrackurtick rbrbrak rceil rcurvyangle rdiagovfdiag rdiagovsearrow recycle rel restriction",
    "revangle revangleubar revemptyset revequilibrium revnmid rfbowtie rfloor rftimes rgroup",
    "rhd rho rhoup right rightangle rightanglemdot rightanglesqr rightarrow rightarrowapprox",
    "rightarrowbackapprox rightarrowbar rightarrowbsimilar rightarrowdiamond rightarrowgtr",
    "rightarrowonoplus rightarrowplus rightarrowshortleftarrow rightarrowsimilar",
    "rightarrowsupset rightarrowtail rightarrowtriangle rightarrowx rightbarharpoon",
    "rightbkarrow rightcurvedarrow rightdasharrow rightdbltail rightdotarrow",
    "rightdowncurvedarrow rightfishtail rightharpoonaccent rightharpoondown rightharpoondownbar",
    "rightharpoonsupdown rightharpoonup rightharpoonupbar rightharpoonupdash rightimply",
    "rightleftarrow rightleftarrows rightleftharpoon rightleftharpoons rightleftharpoonsdown",
    "rightleftharpoonsup rightmoon rightouterjoin rightpentagon rightpentagonblack",
    "rightrightarrows rightrightharpoons rightslice rightsquigarrow righttail rightthreearrows",
    "rightthreetimes rightturn rightupdownharpoon rightwavearrow rightwhitearrow rimg ring",
    "ringplus risingdotseq rlap rm rmoustache root rparen rparenextender rparengtr rparenlend",
    "rparenuend rppolint rrangle rrbracket rres rrparenthesis rsolbar rsqhook rsub rtimes",
    "rtriltri rule ruledelayed rvboxline rvert rvzigzag sadface sagittarius sampi sansLmirrored",
    "sansLturned saturn scorpio scpolint scr scriptscriptstyle scriptsize scriptstyle scurel",
    "sdef searrow sec second semi semicolon seovnearrow setminus sf sh sharp shortdowntack",
    "shortlefttack shortmid shortrightarrowleftarrow shortuptack shoveleft shoveright shuffle",
    "sideset sigma sigmaup sim simeq simgE simgtr similarleftarrow similarrightarrow simlE",
    "simless simminussim simneqq simplus simrdots sin sinewave sinh sixteenthnote skew skull",
    "slash small smallblacktriangleleft smallblacktriangleright smallfrown smallin smallint",
    "smallmatrix smallni smallsetminus smallsmile smalltriangledown smalltriangleleft",
    "smalltriangleright smalltriangleup smash smashtimes smblkcircle smblkdiamond smblklozenge",
    "smblksquare smeparsl smile smileface smiley smt smte smwhitestar smwhtcircle smwhtdiamond",
    "smwhtlozenge smwhtsquare sout space spadesuit spddot sphat sphericalangle sphericalangleup",
    "split spot sptilde sqcap sqcup sqint sqlozenge sqrint sqrt sqrtbottom sqsubset sqsubseteq",
    "sqsubsetneq sqsupset sqsupseteq sqsupsetneq square squarebotblack squarecrossfill",
    "squarehfill squarehvfill squareleftblack squarellblack squarellquad squarelrblack",
    "squarelrquad squareneswfill squarenwsefill squarerightblack squaretopblack squareulblack",
    "squareulquad squareurblack squareurquad squarevfill squoval sslash stackrel star stareq",
    "steaming sterling stigma strictfi strictif strns strut style subedot submult subrarr",
    "subset subsetapprox subsetcirc subsetdot subseteq subseteqq subsetneq subsetneqq",
    "subsetplus subsim substack subsub subsup succ succapprox succcurlyeq succeq succeqq",
    "succnapprox succneq succneqq succnsim succsim sum sumbottom sumint sumtop sun sup supdsub",
    "supedot suphsol suphsub suplarr supmult supset supsetapprox supsetcirc supsetdot supseteq",
    "supseteqq supsetneq supsetneqq supsetplus supsim supsub supsup surd surj swarrow swords",
    "tag talloblong tan tanh tau taurus tauup tbinom tcmu tcohm text textbf textcolor textit",
    "textmd textnormal textrm textsf textstyle texttt textup tfrac tfun tg th therefore thermod",
    "theta thetaup thickapprox thicksim thickspace thinspace third threedangle threedotcolon",
    "threeunderdot tieconcat tieinfty tilde times timesbar tinj tiny tminus to toea tona top",
    "topbot topcir topfork topsemicircle tosa towa tplus trapezium triangle trianglecdot",
    "triangledown triangleleft triangleleftblack trianglelefteq triangleminus triangleodot",
    "triangleplus triangleq triangleright trianglerightblack trianglerighteq triangles",
    "triangleserifs triangletimes triangleubar tripleplus trprime trslash tsur tt turnangle",
    "turnediota turnednot twocaps twocups twoheaddownarrow twoheadleftarrow",
    "twoheadleftarrowtail twoheadleftdbkarrow twoheadmapsfrom twoheadmapsto twoheadrightarrow",
    "twoheadrightarrowtail twoheaduparrow twoheaduparrowcircle twolowline twonotes typecolon",
    "ubrbrak ularc ulblacktriangle ulcorner ultriangle uminus underbar underbrace underbracket",
    "underleftarrow underleftharpoondown underleftrightarrow underline underparen",
    "underrightarrow underrightharpoondown underset unicode unicodecdots unicodeellipsis unlhd",
    "unrhd upAlpha upBeta upChi upDelta upDigamma upEpsilon upEta upGamma upIota upKappa",
    "upKoppa upLambda upMu upNu upOmega upOmicron upPhi upPi upPsi upRho upSampi upSigma",
    "upStigma upTau upTheta upUpsilon upXi upZeta upalpha upand uparrow uparrowbarred",
    "uparrowdownarrow uparrowoncircle upbackepsilon upbeta upchi updasharrow updelta updigamma",
    "updownarrow updownarrowbar updownarrows updownharpoonleftleft updownharpoonleftright",
    "updownharpoonrightleft updownharpoonrightright updownharpoons updownharpoonsleftright",
    "upepsilon upequilibrium upeta upfishtail upgamma upharpoonleft upharpoonleftbar",
    "upharpoonleftdown upharpoonleftup upharpoonright upharpoonrightbar upharpoonrightdown",
    "upharpoonrightup upharpoonsleftright upin upint upiota upkappa upkoppa uplambda uplus upmu",
    "upnu upoldKoppa upoldkoppa upomega upomicron upphi uppi uppsi uprevequilibrium uprho",
    "uprightcurvearrow uproot upsampi upsigma upsilon upsilonup upstigma uptau uptheta",
    "upuparrows upupharpoons upupsilon upvarTheta upvarbeta upvarepsilon upvarkappa upvarphi",
    "upvarpi upvarrho upvarsigma upvartheta upwhitearrow upxi upzeta uranus urarc",
    "urblacktriangle urcorner urtriangle utilde vBar vBarv vDash vDdash varDelta varEarth",
    "varGamma varLambda varOmega varPhi varPi varPsi varSigma varTheta varUpsilon varVdash",
    "varXi varbarwedge varbeta varcarriagereturn varclub varclubsuit vardiamond vardiamondsuit",
    "vardoublebarwedge varepsilon varepsilonup varheart varheartsuit varhexagon varhexagonblack",
    "varhexagonlrbonds varinjlim varisinobar varisins varkappa varliminf varlimsup",
    "varlrtriangle varniobar varnis varnothing varointclockwise varparallel varphi varphiup",
    "varpi varpiup varprod varprojlim varpropto varrho varrhoup varsdef varsigma varsigmaup",
    "varspade varspadesuit varstar varsubsetneq varsubsetneqq varsupsetneq varsupsetneqq",
    "vartheta varthetaup vartriangle vartriangleleft vartriangleright varveebar vbraceextender",
    "vbrtri vcenter vdash vdots vec vectimes vee veebar veedot veedoublebar veeeq veemidvert",
    "veeodot veeonvee veeonwedge verb vert vertoverlay viewdata virgo vlongdash vmatrix",
    "vphantom vrectangle vrectangleblack vysmblkcircle vysmblksquare vysmwhtcircle",
    "vysmwhtsquare vzigzag warning wasylozenge wasytherefore wedge wedgebar wedgedot",
    "wedgedoublebar wedgemidvert wedgeodot wedgeonwedge wedgeq whitearrowupfrombar",
    "whiteinwhitetriangle whitepointerleft whitepointerright whitesquaretickleft",
    "whitesquaretickright whthorzoval whtvertoval wideangledown wideangleup widebridgeabove",
    "widecheck widehat wideparen widetilde wideutilde wp wr xLeftarrow xLeftrightarrow",
    "xRightarrow xbsol xcancel xhookleftarrow xhookrightarrow xi xiup xleftarrow",
    "xleftharpoondown xleftharpoonup xleftrightarrow xleftrightharpoons xlongequal xmapsto",
    "xrightarrow xrightharpoondown xrightharpoonup xrightleftharpoons xsol xtofrom",
    "xtwoheadleftarrow xtwoheadrightarrow yen yinyang zcmp zeta zetaup zhide zpipe zproject"]

def knownNames : List String :=
  knownNameRows.flatMap fun row => (row.toList.splitOn ' ').map String.ofList

/-- Whether a command, written with its backslash, is drawn. -/
def isKnownCommand (command : String) : Bool :=
  match command.toList with
  | '\\' :: name => knownNames.contains (String.ofList name)
  | _ => false

end MarkdownDocx.Latex
