import CardPang.GameSolvable
import CardPang.BoardCells
import CardPang.DeckShuffle
import CardPang.Navigation
import CardPang.AccountCreation
import CardPang.OnboardingKept
import CardPang.AccountSwitch
import CardPang.GamesApart
import CardPang.AccountSettles
import CardPang.OwnAccount
import CardPang.RecordsComplete
import CardPang.DeckOdds
import CardPang.SecondLabel
import CardPang.OnboardingTour
import CardPang.LoaderAttended
import CardPang.LocalWrites
import CardPang.HomePast
