import YamlQuery.Unicode.Runs

/-!
# Unicode.Script — the script of characters

Every code point has one script, named by four letters.  The set of characters used in a script is
larger for many scripts: `scriptExtensions` has the characters by which it differs.
-/

namespace YamlQuery.Unicode

/-- The script of every code point. -/
def scriptRuns : Runs := Runs.ofText (
  "Zyyy65Latn26Zyyy6Latn26Zyyy47Latn1Zyyy15Latn1Zyyy5Latn23Zyyy1Latn31Zyyy1Latn449Zyyy39" ++
    "Latn5Zyyy5Bopo2Zyyy20Zinh112Grek4Zyyy1Grek3Zzzz2Grek4Zyyy1Grek1Zzzz4Grek1Zyyy1Grek1" ++
    "Zyyy1Grek3Zzzz1Grek1Zzzz1Grek20Zzzz1Grek63Copt14Grek16Cyrl133Zinh2Cyrl169Zzzz1Armn38" ++
    "Zzzz2Armn50Zzzz2Armn3Zzzz1Hebr55Zzzz8Hebr27Zzzz4Hebr6Zzzz11Arab5Zyyy1Arab6Zyyy1Arab14" ++
    "Zyyy1Arab3Zyyy1Arab32Zyyy1Arab10Zinh11Arab26Zinh1Arab108Zyyy1Arab34Syrc14Zzzz1Syrc60" ++
    "Zzzz2Syrc3Arab48Thaa50Zzzz14Nkoo59Zzzz2Nkoo3Samr46Zzzz2Samr15Zzzz1Mand28Zzzz2Mand1Zzzz1" ++
    "Syrc11Zzzz5Arab31Zzzz1Arab2Zzzz5Arab75Zyyy1Arab29Deva81Zinh4Deva15Zyyy2Deva26Beng4Zzzz1" ++
    "Beng8Zzzz2Beng2Zzzz2Beng22Zzzz1Beng7Zzzz1Beng1Zzzz3Beng4Zzzz2Beng9Zzzz2Beng2Zzzz2Beng4" ++
    "Zzzz8Beng1Zzzz4Beng2Zzzz1Beng5Zzzz2Beng25Zzzz2Guru3Zzzz1Guru6Zzzz4Guru2Zzzz2Guru22Zzzz1" ++
    "Guru7Zzzz1Guru2Zzzz1Guru2Zzzz1Guru2Zzzz2Guru1Zzzz1Guru5Zzzz4Guru2Zzzz2Guru3Zzzz3Guru1" ++
    "Zzzz7Guru4Zzzz1Guru1Zzzz7Guru17Zzzz10Gujr3Zzzz1Gujr9Zzzz1Gujr3Zzzz1Gujr22Zzzz1Gujr7" ++
    "Zzzz1Gujr2Zzzz1Gujr5Zzzz2Gujr10Zzzz1Gujr3Zzzz1Gujr3Zzzz2Gujr1Zzzz15Gujr4Zzzz2Gujr12" ++
    "Zzzz7Gujr7Zzzz1Orya3Zzzz1Orya8Zzzz2Orya2Zzzz2Orya22Zzzz1Orya7Zzzz1Orya2Zzzz1Orya5Zzzz2" ++
    "Orya9Zzzz2Orya2Zzzz2Orya3Zzzz7Orya3Zzzz4Orya2Zzzz1Orya5Zzzz2Orya18Zzzz10Taml2Zzzz1Taml6" ++
    "Zzzz3Taml3Zzzz1Taml4Zzzz3Taml2Zzzz1Taml1Zzzz1Taml2Zzzz3Taml2Zzzz3Taml3Zzzz3Taml12Zzzz4" ++
    "Taml5Zzzz3Taml3Zzzz1Taml4Zzzz2Taml1Zzzz6Taml1Zzzz14Taml21Zzzz5Telu13Zzzz1Telu3Zzzz1" ++
    "Telu23Zzzz1Telu16Zzzz2Telu9Zzzz1Telu3Zzzz1Telu4Zzzz7Telu2Zzzz1Telu3Zzzz2Telu1Zzzz2Telu4" ++
    "Zzzz2Telu10Zzzz7Telu9Knda13Zzzz1Knda3Zzzz1Knda23Zzzz1Knda10Zzzz1Knda5Zzzz2Knda9Zzzz1" ++
    "Knda3Zzzz1Knda4Zzzz7Knda2Zzzz6Knda2Zzzz1Knda4Zzzz2Knda10Zzzz1Knda3Zzzz12Mlym13Zzzz1" ++
    "Mlym3Zzzz1Mlym51Zzzz1Mlym3Zzzz1Mlym6Zzzz4Mlym16Zzzz2Mlym26Zzzz1Sinh3Zzzz1Sinh18Zzzz3" ++
    "Sinh24Zzzz1Sinh9Zzzz1Sinh1Zzzz2Sinh7Zzzz3Sinh1Zzzz4Sinh6Zzzz1Sinh1Zzzz1Sinh8Zzzz6Sinh10" ++
    "Zzzz2Sinh3Zzzz12Thai58Zzzz4Zyyy1Thai28Zzzz37Laoo2Zzzz1Laoo1Zzzz1Laoo5Zzzz1Laoo24Zzzz1" ++
    "Laoo1Zzzz1Laoo23Zzzz2Laoo5Zzzz1Laoo1Zzzz1Laoo7Zzzz1Laoo10Zzzz2Laoo4Zzzz32Tibt72Zzzz1" ++
    "Tibt36Zzzz4Tibt39Zzzz1Tibt36Zzzz1Tibt15Zzzz1Tibt7Zyyy4Tibt2Zzzz37Mymr160Geor38Zzzz1" ++
    "Geor1Zzzz5Geor1Zzzz2Geor43Zyyy1Geor4Hang256Ethi73Zzzz1Ethi4Zzzz2Ethi7Zzzz1Ethi1Zzzz1" ++
    "Ethi4Zzzz2Ethi41Zzzz1Ethi4Zzzz2Ethi33Zzzz1Ethi4Zzzz2Ethi7Zzzz1Ethi1Zzzz1Ethi4Zzzz2" ++
    "Ethi15Zzzz1Ethi57Zzzz1Ethi4Zzzz2Ethi67Zzzz2Ethi32Zzzz3Ethi26Zzzz6Cher86Zzzz2Cher6Zzzz2" ++
    "Cans640Ogam29Zzzz3Runr75Zyyy3Runr11Zzzz7Tglg22Zzzz9Tglg1Hano21Zyyy2Zzzz9Buhd20Zzzz12" ++
    "Tagb13Zzzz1Tagb3Zzzz1Tagb2Zzzz12Khmr94Zzzz2Khmr10Zzzz6Khmr10Zzzz6Mong2Zyyy2Mong1Zyyy1" ++
    "Mong20Zzzz6Mong89Zzzz7Mong43Zzzz5Cans70Zzzz10Limb31Zzzz1Limb12Zzzz4Limb12Zzzz4Limb1" ++
    "Zzzz3Limb12Tale30Zzzz2Tale5Zzzz11Talu44Zzzz4Talu26Zzzz6Talu11Zzzz3Talu2Khmr32Bugi28" ++
    "Zzzz2Bugi2Lana63Zzzz1Lana29Zzzz2Lana11Zzzz6Lana10Zzzz6Lana14Zzzz2Zinh31Zzzz49Bali77" ++
    "Zzzz1Bali50Sund64Batk52Zzzz8Batk4Lepc56Zzzz3Lepc15Zzzz3Lepc3Olck48Cyrl11Zzzz5Geor43" ++
    "Zzzz2Geor3Sund8Zzzz8Zinh3Zyyy1Zinh13Zyyy1Zinh7Zyyy4Zinh1Zyyy6Zinh1Zyyy3Zinh2Zyyy1Zzzz5" ++
    "Latn38Grek5Cyrl1Latn49Grek5Latn4Grek5Latn13Cyrl1Latn70Grek1Zinh64Latn256Grek22Zzzz2" ++
    "Grek6Zzzz2Grek38Zzzz2Grek6Zzzz2Grek8Zzzz1Grek1Zzzz1Grek1Zzzz1Grek1Zzzz1Grek31Zzzz2" ++
    "Grek53Zzzz1Grek15Zzzz1Grek14Zzzz2Grek6Zzzz1Grek19Zzzz2Grek3Zzzz1Grek9Zzzz1Zyyy12Zinh2" ++
    "Zyyy87Zzzz1Zyyy11Latn1Zzzz2Zyyy11Latn1Zyyy15Zzzz1Latn13Zzzz3Zyyy33Zzzz15Zinh33Zzzz15" ++
    "Zyyy38Grek1Zyyy3Latn2Zyyy6Latn1Zyyy27Latn1Zyyy17Latn41Zyyy3Zzzz4Zyyy666Zzzz22Zyyy11" ++
    "Zzzz21Zyyy928Brai256Zyyy628Zzzz2Zyyy32Zzzz1Zyyy105Glag96Latn32Copt116Zzzz5Copt7Geor38" ++
    "Zzzz1Geor1Zzzz5Geor1Zzzz2Tfng56Zzzz7Tfng2Zzzz14Tfng1Ethi23Zzzz9Ethi7Zzzz1Ethi7Zzzz1" ++
    "Ethi7Zzzz1Ethi7Zzzz1Ethi7Zzzz1Ethi7Zzzz1Ethi7Zzzz1Ethi7Zzzz1Cyrl32Zyyy94Zzzz34Hani26" ++
    "Zzzz1Hani89Zzzz12Hani214Zzzz26Zyyy21Hani1Zyyy1Hani1Zyyy25Hani9Zinh4Hang2Zyyy8Hani4Zyyy4" ++
    "Zzzz1Hira86Zzzz2Zinh2Zyyy2Hira3Zyyy1Kana90Zyyy2Kana3Zzzz5Bopo43Zzzz1Hang94Zzzz1Zyyy16" ++
    "Bopo32Zyyy38Zzzz9Zyyy1Kana16Hang31Zzzz1Zyyy64Hang31Zyyy81Kana47Zyyy1Kana88Zyyy168" ++
    "Hani6592Zyyy64Hani20992Yiii1165Zzzz3Yiii55Zzzz9Lisu48Vaii300Zzzz20Cyrl96Bamu88Zzzz8" ++
    "Zyyy34Latn102Zyyy3Latn67Zzzz2Latn2Zzzz1Latn1Zzzz1Latn8Zzzz21Latn14Sylo45Zzzz3Zyyy10" ++
    "Zzzz6Phag56Zzzz8Saur70Zzzz8Saur12Zzzz6Deva32Kali46Zyyy1Kali1Rjng36Zzzz11Rjng1Hang29" ++
    "Zzzz3Java78Zzzz1Zyyy1Java10Zzzz4Java2Mymr31Zzzz1Cham55Zzzz9Cham14Zzzz2Cham10Zzzz2Cham4" ++
    "Mymr32Tavt67Zzzz24Tavt5Mtei23Zzzz10Ethi6Zzzz2Ethi6Zzzz2Ethi6Zzzz9Ethi7Zzzz1Ethi7Zzzz1" ++
    "Latn43Zyyy1Latn9Grek1Latn4Zyyy2Zzzz4Cher80Mtei46Zzzz2Mtei10Zzzz6Hang11172Zzzz12Hang23" ++
    "Zzzz4Hang49Zzzz8452Hani366Zzzz2Hani106Zzzz38Latn7Zzzz12Armn5Zzzz5Hebr26Zzzz1Hebr5Zzzz1" ++
    "Hebr1Zzzz1Hebr2Zzzz1Hebr2Zzzz1Hebr10Arab115Zzzz16Arab363Zyyy2Arab80Zzzz2Arab54Zzzz7" ++
    "Arab1Zzzz32Arab16Zinh16Zyyy10Zzzz6Zinh14Cyrl2Zyyy35Zzzz1Zyyy19Zzzz1Zyyy4Zzzz4Arab5Zzzz1" ++
    "Arab135Zzzz2Zyyy1Zzzz1Zyyy32Latn26Zyyy6Latn26Zyyy11Kana10Zyyy1Kana45Zyyy2Hang31Zzzz3" ++
    "Hang6Zzzz2Hang6Zzzz2Hang6Zzzz2Hang3Zzzz3Zyyy7Zzzz1Zyyy7Zzzz10Zyyy5Zzzz2Linb12Zzzz1" ++
    "Linb26Zzzz1Linb19Zzzz1Linb2Zzzz1Linb15Zzzz2Linb14Zzzz34Linb123Zzzz5Zyyy3Zzzz4Zyyy45" ++
    "Zzzz3Zyyy9Grek79Zzzz1Zyyy13Zzzz3Grek1Zzzz47Zyyy45Zinh1Zzzz130Lyci29Zzzz3Cari49Zzzz15" ++
    "Zinh1Zyyy27Zzzz4Ital36Zzzz9Ital3Goth27Zzzz5Perm43Zzzz5Ugar30Zzzz1Ugar1Xpeo36Zzzz4Xpeo14" ++
    "Zzzz42Dsrt80Shaw48Osma30Zzzz2Osma10Zzzz6Osge36Zzzz4Osge36Zzzz4Elba40Zzzz8Aghb52Zzzz11" ++
    "Aghb1Vith11Zzzz1Vith15Zzzz1Vith7Zzzz1Vith2Zzzz1Vith11Zzzz1Vith15Zzzz1Vith7Zzzz1Vith2" ++
    "Zzzz3Todr52Zzzz12Lina311Zzzz9Lina22Zzzz10Lina8Zzzz24Latn6Zzzz1Latn42Zzzz1Latn9Zzzz69" ++
    "Cprt6Zzzz2Cprt1Zzzz1Cprt44Zzzz1Cprt2Zzzz3Cprt1Zzzz2Cprt1Armi22Zzzz1Armi9Palm32Nbat31" ++
    "Zzzz8Nbat9Zzzz48Hatr19Zzzz1Hatr2Zzzz5Hatr5Phnx28Zzzz3Phnx1Lydi26Zzzz5Lydi1Zzzz64Mero32" ++
    "Merc24Zzzz4Merc20Zzzz2Merc46Khar4Zzzz1Khar2Zzzz5Khar8Zzzz1Khar3Zzzz1Khar29Zzzz2Khar3" ++
    "Zzzz4Khar10Zzzz7Khar9Zzzz7Sarb32Narb32Zzzz32Mani39Zzzz4Mani12Zzzz9Avst54Zzzz3Avst7" ++
    "Prti22Zzzz2Prti8Phli19Zzzz5Phli8Phlp18Zzzz7Phlp4Zzzz12Phlp7Zzzz80Orkh73Zzzz55Hung51" ++
    "Zzzz13Hung51Zzzz7Hung6Rohg40Zzzz8Rohg10Zzzz6Gara38Zzzz3Gara29Zzzz8Gara2Zzzz208Arab31" ++
    "Zzzz1Yezi42Zzzz1Yezi3Zzzz2Yezi2Zzzz16Arab3Zzzz55Arab4Sogo40Zzzz8Sogd42Zzzz22Ougr26" ++
    "Zzzz38Chrs28Zzzz20Elym23Zzzz9Brah78Zzzz4Brah36Zzzz9Brah1Kthi67Zzzz10Kthi1Zzzz2Sora25" ++
    "Zzzz7Sora10Zzzz6Cakm53Zzzz1Cakm18Zzzz8Mahj39Zzzz9Shrd96Zzzz1Sinh20Zzzz11Khoj18Zzzz1" ++
    "Khoj47Zzzz62Mult7Zzzz1Mult1Zzzz1Mult4Zzzz1Mult15Zzzz1Mult11Zzzz6Sind59Zzzz5Sind10Zzzz6" ++
    "Gran4Zzzz1Gran8Zzzz2Gran2Zzzz2Gran22Zzzz1Gran7Zzzz1Gran2Zzzz1Gran5Zzzz1Zinh1Gran9Zzzz2" ++
    "Gran2Zzzz2Gran3Zzzz2Gran1Zzzz6Gran1Zzzz5Gran7Zzzz2Gran7Zzzz3Gran5Zzzz11Tutg10Zzzz1Tutg1" ++
    "Zzzz2Tutg1Zzzz1Tutg38Zzzz1Tutg10Zzzz1Tutg1Zzzz2Tutg1Zzzz1Tutg4Zzzz1Tutg10Zzzz1Tutg2" ++
    "Zzzz8Tutg2Zzzz29Newa92Zzzz1Newa5Zzzz30Tirh72Zzzz8Tirh10Zzzz166Sidd54Zzzz2Sidd38Zzzz34" ++
    "Modi69Zzzz11Modi10Zzzz6Mong13Zzzz19Takr58Zzzz6Takr10Zzzz6Mymr20Zzzz28Ahom27Zzzz2Ahom15" ++
    "Zzzz4Ahom23Zzzz185Dogr60Zzzz100Wara83Zzzz12Wara1Diak7Zzzz2Diak1Zzzz2Diak8Zzzz1Diak2" ++
    "Zzzz1Diak30Zzzz1Diak2Zzzz2Diak12Zzzz9Diak10Zzzz70Nand8Zzzz2Nand46Zzzz2Nand11Zzzz27" ++
    "Zanb72Zzzz8Soyo83Zzzz13Cans16Pauc57Zzzz7Deva10Zzzz182Sunu34Zzzz14Sunu10Zzzz6Bhks9Zzzz1" ++
    "Bhks45Zzzz1Bhks14Zzzz10Bhks29Zzzz3Marc32Zzzz2Marc22Zzzz1Marc14Zzzz73Gonm7Zzzz1Gonm2" ++
    "Zzzz1Gonm44Zzzz3Gonm1Zzzz1Gonm2Zzzz1Gonm9Zzzz8Gonm10Zzzz6Gong6Zzzz1Gong2Zzzz1Gong37" ++
    "Zzzz1Gong2Zzzz1Gong6Zzzz7Gong10Zzzz310Maka25Zzzz7Kawi17Zzzz1Kawi41Zzzz3Kawi29Zzzz85" ++
    "Lisu1Zzzz15Taml50Zzzz13Taml1Xsux922Zzzz102Xsux111Zzzz1Xsux5Zzzz11Xsux196Zzzz2636Cpmn99" ++
    "Zzzz13Egyp1110Zzzz10Egyp3995Zzzz5Hluw583Zzzz6841Gukh58Zzzz1734Bamu569Zzzz7Mroo31Zzzz1" ++
    "Mroo10Zzzz4Mroo2Tnsa79Zzzz1Tnsa10Zzzz6Bass30Zzzz2Bass6Zzzz10Hmng70Zzzz10Hmng10Zzzz1" ++
    "Hmng7Zzzz1Hmng21Zzzz5Hmng19Zzzz432Krai58Zzzz198Medf91Zzzz101Plrd75Zzzz4Plrd57Zzzz7" ++
    "Plrd17Zzzz64Tang1Nshu1Hani2Kits1Zzzz11Hani2Zzzz14Tang6136Zzzz8Tang768Kits470Zzzz41Kits1" ++
    "Tang9Zzzz8935Kana4Zzzz1Kana7Zzzz1Kana2Zzzz1Kana1Hira287Kana3Zzzz15Hira1Zzzz29Hira3Zzzz2" ++
    "Kana1Zzzz14Kana4Zzzz8Nshu396Zzzz2308Dupl107Zzzz5Dupl13Zzzz3Dupl9Zzzz7Dupl10Zzzz2Dupl4" ++
    "Zyyy4Zzzz3932Zyyy250Zzzz6Zyyy436Zzzz76Zinh46Zzzz2Zinh23Zzzz9Zyyy116Zzzz60Zyyy246Zzzz10" ++
    "Zyyy39Zzzz2Zyyy62Zinh3Zyyy17Zinh8Zyyy2Zinh7Zyyy30Zinh4Zyyy61Zzzz21Grek70Zzzz122Zyyy20" ++
    "Zzzz12Zyyy20Zzzz12Zyyy87Zzzz9Zyyy25Zzzz135Zyyy85Zzzz1Zyyy71Zzzz1Zyyy2Zzzz2Zyyy1Zzzz2" ++
    "Zyyy2Zzzz2Zyyy4Zzzz1Zyyy12Zzzz1Zyyy1Zzzz1Zyyy7Zzzz1Zyyy65Zzzz1Zyyy4Zzzz2Zyyy8Zzzz1Zyyy7" ++
    "Zzzz1Zyyy28Zzzz1Zyyy4Zzzz1Zyyy5Zzzz1Zyyy1Zzzz3Zyyy7Zzzz1Zyyy340Zzzz2Zyyy292Zzzz2Zyyy50" ++
    "Sgnw652Zzzz15Sgnw5Zzzz1Sgnw15Zzzz1104Latn31Zzzz6Latn6Zzzz213Glag7Zzzz1Glag17Zzzz2Glag7" ++
    "Zzzz1Glag2Zzzz1Glag5Zzzz5Cyrl62Zzzz33Cyrl1Zzzz112Hmnp45Zzzz3Hmnp14Zzzz2Hmnp10Zzzz4Hmnp2" ++
    "Zzzz320Toto31Zzzz17Wcho58Zzzz5Wcho1Zzzz464Nagm42Zzzz214Onao43Zzzz4Onao1Zzzz480Ethi7" ++
    "Zzzz1Ethi4Zzzz1Ethi2Zzzz1Ethi15Zzzz1Mend197Zzzz2Mend16Zzzz41Adlm76Zzzz4Adlm10Zzzz4Adlm2" ++
    "Zzzz785Zyyy68Zzzz76Zyyy61Zzzz194Arab4Zzzz1Arab27Zzzz1Arab2Zzzz1Arab1Zzzz2Arab1Zzzz1" ++
    "Arab10Zzzz1Arab4Zzzz1Arab1Zzzz1Arab1Zzzz6Arab1Zzzz4Arab1Zzzz1Arab1Zzzz1Arab1Zzzz1Arab3" ++
    "Zzzz1Arab2Zzzz1Arab1Zzzz2Arab1Zzzz1Arab1Zzzz1Arab1Zzzz1Arab1Zzzz1Arab1Zzzz1Arab2Zzzz1" ++
    "Arab1Zzzz2Arab4Zzzz1Arab7Zzzz1Arab4Zzzz1Arab4Zzzz1Arab1Zzzz1Arab10Zzzz1Arab17Zzzz5Arab3" ++
    "Zzzz1Arab5Zzzz1Arab17Zzzz52Arab2Zzzz270Zyyy44Zzzz4Zyyy100Zzzz12Zyyy15Zzzz2Zyyy15Zzzz1" ++
    "Zyyy15Zzzz1Zyyy37Zzzz10Zyyy174Zzzz56Zyyy26Hira1Zyyy2Zzzz13Zyyy44Zzzz4Zyyy9Zzzz7Zyyy2" ++
    "Zzzz14Zyyy6Zzzz154Zyyy984Zzzz4Zyyy17Zzzz3Zyyy13Zzzz3Zyyy119Zzzz4Zyyy95Zzzz6Zyyy12Zzzz4" ++
    "Zyyy1Zzzz15Zyyy12Zzzz4Zyyy56Zzzz8Zyyy10Zzzz6Zyyy40Zzzz8Zyyy30Zzzz2Zyyy12Zzzz4Zyyy2" ++
    "Zzzz62Zyyy340Zzzz12Zyyy14Zzzz2Zyyy13Zzzz3Zyyy10Zzzz5Zyyy56Zzzz7Zyyy15Zzzz2Zyyy11Zzzz6" ++
    "Zyyy9Zzzz7Zyyy147Zzzz1Zyyy102Zzzz1030Hani42720Zzzz32Hani4154Zzzz6Hani222Zzzz2Hani5762" ++
    "Zzzz14Hani7473Zzzz15Hani622Zzzz2466Hani542Zzzz1506Hani4939Zzzz5Hani4192Zzzz711761Zyyy1" ++
    "Zzzz30Zyyy96Zzzz128Zinh240Zzzz196112")

/-- The script of a character. -/
def script (c : Char) : String := scriptRuns.label c

/-- The names of the scripts. -/
def scriptNames : List (List Char) := Text.words (
  "Adlm=Adlam Ahom=Ahom Hluw=Anatolian_Hieroglyphs Arab=Arabic Armn=Armenian Avst=Avestan " ++
    "Bali=Balinese Bamu=Bamum Bass=Bassa_Vah Batk=Batak Beng=Bengali Bhks=Bhaiksuki " ++
    "Bopo=Bopomofo Brah=Brahmi Brai=Braille Bugi=Buginese Buhd=Buhid " ++
    "Cans=Canadian_Aboriginal Cari=Carian Aghb=Caucasian_Albanian Cakm=Chakma Cham=Cham " ++
    "Cher=Cherokee Chrs=Chorasmian Zyyy=Common Copt=Coptic=Qaac Xsux=Cuneiform Cprt=Cypriot " ++
    "Cpmn=Cypro_Minoan Cyrl=Cyrillic Dsrt=Deseret Deva=Devanagari Diak=Dives_Akuru " ++
    "Dogr=Dogra Dupl=Duployan Egyp=Egyptian_Hieroglyphs Elba=Elbasan Elym=Elymaic " ++
    "Ethi=Ethiopic Gara=Garay Geor=Georgian Glag=Glagolitic Goth=Gothic Gran=Grantha " ++
    "Grek=Greek Gujr=Gujarati Gong=Gunjala_Gondi Guru=Gurmukhi Gukh=Gurung_Khema Hani=Han " ++
    "Hang=Hangul Rohg=Hanifi_Rohingya Hano=Hanunoo Hatr=Hatran Hebr=Hebrew Hira=Hiragana " ++
    "Armi=Imperial_Aramaic Zinh=Inherited=Qaai Phli=Inscriptional_Pahlavi " ++
    "Prti=Inscriptional_Parthian Java=Javanese Kthi=Kaithi Knda=Kannada Kana=Katakana " ++
    "Kawi=Kawi Kali=Kayah_Li Khar=Kharoshthi Kits=Khitan_Small_Script Khmr=Khmer " ++
    "Khoj=Khojki Sind=Khudawadi Krai=Kirat_Rai Laoo=Lao Latn=Latin Lepc=Lepcha Limb=Limbu " ++
    "Lina=Linear_A Linb=Linear_B Lisu=Lisu Lyci=Lycian Lydi=Lydian Mahj=Mahajani " ++
    "Maka=Makasar Mlym=Malayalam Mand=Mandaic Mani=Manichaean Marc=Marchen " ++
    "Gonm=Masaram_Gondi Medf=Medefaidrin Mtei=Meetei_Mayek Mend=Mende_Kikakui " ++
    "Merc=Meroitic_Cursive Mero=Meroitic_Hieroglyphs Plrd=Miao Modi=Modi Mong=Mongolian " ++
    "Mroo=Mro Mult=Multani Mymr=Myanmar Nbat=Nabataean Nagm=Nag_Mundari Nand=Nandinagari " ++
    "Talu=New_Tai_Lue Newa=Newa Nkoo=Nko Nshu=Nushu Hmnp=Nyiakeng_Puachue_Hmong Ogam=Ogham " ++
    "Olck=Ol_Chiki Onao=Ol_Onal Hung=Old_Hungarian Ital=Old_Italic Narb=Old_North_Arabian " ++
    "Perm=Old_Permic Xpeo=Old_Persian Sogo=Old_Sogdian Sarb=Old_South_Arabian " ++
    "Orkh=Old_Turkic Ougr=Old_Uyghur Orya=Oriya Osge=Osage Osma=Osmanya Hmng=Pahawh_Hmong " ++
    "Palm=Palmyrene Pauc=Pau_Cin_Hau Phag=Phags_Pa Phnx=Phoenician Phlp=Psalter_Pahlavi " ++
    "Rjng=Rejang Runr=Runic Samr=Samaritan Saur=Saurashtra Shrd=Sharada Shaw=Shavian " ++
    "Sidd=Siddham Sgnw=SignWriting Sinh=Sinhala Sogd=Sogdian Sora=Sora_Sompeng Soyo=Soyombo " ++
    "Sund=Sundanese Sunu=Sunuwar Sylo=Syloti_Nagri Syrc=Syriac Tglg=Tagalog Tagb=Tagbanwa " ++
    "Tale=Tai_Le Lana=Tai_Tham Tavt=Tai_Viet Takr=Takri Taml=Tamil Tnsa=Tangsa Tang=Tangut " ++
    "Telu=Telugu Thaa=Thaana Thai=Thai Tibt=Tibetan Tfng=Tifinagh Tirh=Tirhuta Todr=Todhri " ++
    "Toto=Toto Tutg=Tulu_Tigalari Ugar=Ugaritic Vaii=Vai Vith=Vithkuqi Wcho=Wancho " ++
    "Wara=Warang_Citi Yezi=Yezidi Yiii=Yi Zanb=Zanabazar_Square").toList

/-- The four letters of the script with a name. -/
def script? (name : List Char) : Option String :=
  let name := looseName name
  (scriptNames.find? fun entry => (Text.splitOn ['='] entry).any (looseName · == name)).map
    fun entry => String.ofList (entry.take 4)

/-- By script: the characters that are used in it without having it, or have it and are used in
others too. -/
def scriptExtensionTexts : List (String × String) := [
  ("Adlm",
    "61F 640 204F 2E41"),
  ("Arab",
    "60C 61B 61F 640 64B-655 670 204F 2E41 FD3E-FD3F 102E0-102FB"),
  ("Armn",
    "308"),
  ("Avst",
    "B7 2E30-2E31"),
  ("Beng",
    "2BC 951-952 964-965 1CD0 1CD2 1CD5-1CD6 1CD8 1CE1 1CEA 1CED 1CF2 1CF5-1CF7 A8F1"),
  ("Bopo",
    "2C7 2C9-2CB 2D9 3001-3003 3008-3011 3013-301F 302A-302D 3030 3037 30FB FE45-FE46 " ++
      "FF61-FF65"),
  ("Bugi",
    "A9CF"),
  ("Buhd",
    "1735-1736"),
  ("Cari",
    "B7 205A 205D 2E31"),
  ("Aghb",
    "304 331 35E"),
  ("Cakm",
    "9E6-9EF 1040-1049"),
  ("Cher",
    "300-302 304 30B-30C 323-324 330-331"),
  ("Zyyy",
    "B7 2BC 2C7 2C9-2CB 2CD 2D7 2D9 374 60C 61B 61F 640 964-965 10FB 16EB-16ED 1735-1736 " ++
      "1802-1803 1805 1CD3 1CE1 1CE9-1CEC 1CEE-1CF3 1CF5-1CF7 1CFA 202F 204F 205A 205D 2E17 " ++
      "2E30-2E31 2E3C 2E41 2E43 2FF0-2FFF 3001-3003 3006 3008-3011 3013-301F 3030-3035 3037 " ++
      "303C-303F 309B-309C 30A0 30FB-30FC 3190-319F 31C0-31E5 31EF 3220-3247 3280-32B0 " ++
      "32C0-32CB 32FF 3358-3370 337B-337F 33E0-33FE A700-A707 A830-A839 A92E A9CF FD3E-FD3F " ++
      "FE45-FE46 FF61-FF65 FF70 FF9E-FF9F 10100-10102 10107-10133 10137-1013F 102E1-102FB " ++
      "1BCA0-1BCA3 1D360-1D371 1F250-1F251"),
  ("Copt",
    "B7 300 304-305 307 374-375 2E17 102E0-102FB"),
  ("Cprt",
    "10100-10102 10107-10133 10137-1013F"),
  ("Cpmn",
    "10100-10101"),
  ("Cyrl",
    "2BC 300-302 304 306 308 30B 311 485-486 1DF8 2E43"),
  ("Deva",
    "2BC 951-952 964-965 1CD0-1CF6 1CF8-1CF9 20F0 A830-A839"),
  ("Dogr",
    "964-96F A830-A839"),
  ("Dupl",
    "B7 307-308 30A 323-324 2E3C 1BCA0-1BCA3"),
  ("Elba",
    "B7 305"),
  ("Ethi",
    "30E"),
  ("Gara",
    "60C 61B 61F"),
  ("Geor",
    "B7 589 10FB 205A 2E31"),
  ("Glag",
    "B7 303 305 484 487 589 10FB 205A 2E43 A66F"),
  ("Goth",
    "B7 304-305 308 331"),
  ("Gran",
    "951-952 964-965 BE6-BF3 1CD0 1CD2-1CD3 1CF2-1CF4 1CF8-1CF9 20F0 1133B 11FD0-11FD1 " ++
      "11FD3"),
  ("Grek",
    "B7 300-301 304 306 308 313 342 345 374 1DC0-1DC1 205D"),
  ("Gujr",
    "951-952 964-965 A830-A839"),
  ("Gong",
    "B7 964-965"),
  ("Guru",
    "951-952 964-965 A830-A839"),
  ("Gukh",
    "965"),
  ("Hani",
    "B7 2FF0-2FFF 3001-3003 3006 3008-3011 3013-301F 302A-302D 3030 3037 303C-303F 30FB " ++
      "3190-319F 31C0-31E5 31EF 3220-3247 3280-32B0 32C0-32CB 32FF 3358-3370 337B-337F " ++
      "33E0-33FE A700-A707 FE45-FE46 FF61-FF65 1D360-1D371 1F250-1F251"),
  ("Hang",
    "3001-3003 3008-3011 3013-301F 3030 3037 30FB FE45-FE46 FF61-FF65"),
  ("Rohg",
    "60C 61B 61F 640 6D4"),
  ("Hano",
    "1735-1736"),
  ("Hebr",
    "307-308"),
  ("Hira",
    "3001-3003 3008-3011 3013-301F 3030-3035 3037 303C-303D 3099-309C 30A0 30FB-30FC " ++
      "FE45-FE46 FF61-FF65 FF70 FF9E-FF9F"),
  ("Zinh",
    "300-30E 310-311 313 323-325 32D-32E 330-331 342 345 358 35E 363-36F 485-486 64B-655 " ++
      "670 951-952 1CD0-1CD2 1CD4-1CE0 1CE2-1CE8 1CED 1CF4 1CF8-1CF9 1DC0-1DC1 1DF8 1DFA " ++
      "20F0 302A-302D 3099-309A 102E0 1133B"),
  ("Java",
    "A9CF"),
  ("Kthi",
    "966-96F 2E31 A830-A839"),
  ("Knda",
    "951-952 964-965 1CD0 1CD2-1CD3 1CDA 1CF2 1CF4 A830-A835"),
  ("Kana",
    "305 323 3001-3003 3008-3011 3013-301F 3030-3035 3037 303C-303D 3099-309C 30A0 " ++
      "30FB-30FC FE45-FE46 FF61-FF65 FF70 FF9E-FF9F"),
  ("Kali",
    "A92E"),
  ("Khoj",
    "AE6-AEF A830-A839"),
  ("Sind",
    "964-965 A830-A839"),
  ("Latn",
    "B7 2BC 2C7 2C9-2CB 2CD 2D7 2D9 300-30E 310-311 313 323-325 32D-32E 330-331 358 35E " ++
      "363-36F 485-486 951-952 10FB 1DF8 202F 20F0 2E17 A700-A707 A92E"),
  ("Limb",
    "965"),
  ("Lina",
    "10107-10133"),
  ("Linb",
    "10100-10102 10107-10133 10137-1013F"),
  ("Lisu",
    "2BC 2CD 300A-300B"),
  ("Lyci",
    "205A"),
  ("Lydi",
    "B7 2E31"),
  ("Mahj",
    "B7 964-96F A830-A839"),
  ("Mlym",
    "951-952 964-965 1CDA 1CF2 A830-A832"),
  ("Mand",
    "640"),
  ("Mani",
    "640"),
  ("Gonm",
    "964-965"),
  ("Mero",
    "205D"),
  ("Modi",
    "A830-A839"),
  ("Mong",
    "1802-1803 1805 202F 3001-3002 3008-300B"),
  ("Mult",
    "A66-A6F"),
  ("Mymr",
    "A92E"),
  ("Nand",
    "951 964-965 CE6-CEF 1CE9 1CF2 1CFA A830-A835"),
  ("Newa",
    "951-952 1CD5 1CD7-1CD8 1CE2 1CE9 1CEB 1CED"),
  ("Nkoo",
    "60C 61B 61F FD3E-FD3F"),
  ("Onao",
    "964-965"),
  ("Hung",
    "205A 205D 2E31 2E41"),
  ("Perm",
    "B7 300 306-308 313 483"),
  ("Orkh",
    "205A 2E30"),
  ("Ougr",
    "640 10AF2"),
  ("Orya",
    "951-952 964-965 1CDA 1CF2"),
  ("Osge",
    "301 304 30B 358"),
  ("Phag",
    "1802-1803 1805 202F 3002"),
  ("Phlp",
    "640"),
  ("Runr",
    "16EB-16ED"),
  ("Samr",
    "2E31"),
  ("Shrd",
    "951 1CD7 1CD9 1CDC-1CDD 1CE0 1CEA 1CED A830-A835 A838"),
  ("Shaw",
    "B7"),
  ("Sinh",
    "964-965 1CF2"),
  ("Sogd",
    "640"),
  ("Sunu",
    "300-301 303 30D 310 32D 331"),
  ("Sylo",
    "964-965 9E6-9EF"),
  ("Syrc",
    "303-304 307-308 30A 323-325 32D-32E 330-331 60C 61B-61C 61F 640 64B-655 670 1DF8 " ++
      "1DFA"),
  ("Tglg",
    "1735-1736"),
  ("Tagb",
    "1735-1736"),
  ("Tale",
    "300-301 307-308 30C 1040-1049"),
  ("Takr",
    "964-965 A830-A839"),
  ("Taml",
    "951-952 964-965 1CDA A8F3 11301 11303 1133B-1133C"),
  ("Tang",
    "2FF0-2FFF 31EF"),
  ("Telu",
    "951-952 964-965 1CD5-1CD6 1CD8 1CDA 1CF2"),
  ("Thaa",
    "60C 61B-61C 61F 660-669 FDF2 FDFD"),
  ("Thai",
    "2BC 2D7 303 331"),
  ("Tibt",
    "3008-300B"),
  ("Tfng",
    "302 304 306-309 323"),
  ("Tirh",
    "951-952 964-965 1CD5 1CE2 1CF2 A830-A839"),
  ("Todr",
    "301 304 307 311 313 35E"),
  ("Toto",
    "2BC"),
  ("Tutg",
    "CE6-CEF 1CF2 1CF4 A830-A835 A8F1"),
  ("Yezi",
    "60C 61B 61F 660-669"),
  ("Yiii",
    "3001-3002 3008-3011 3014-301B 30FB FF61-FF65")]

/-- `scriptExtensionTexts`, read. -/
def scriptExtensions : List (String × Ranges) :=
  scriptExtensionTexts.map fun (name, ranges) => (name, Ranges.ofText ranges)

/-- The character has a script. -/
def hasScript (name : String) (c : Char) : Bool := script c == name

/-- The character is used in a script. -/
def usedInScript (name : String) (c : Char) : Bool :=
  hasScript name c != scriptExtensions.any fun (n, ranges) => n == name && ranges.has c

end YamlQuery.Unicode
