import Otpasswd.Common.NumOverflow
import Otpasswd.Common.NumFormat
import Otpasswd.Libotp.OneTime
import Otpasswd.Agent.Handle
import Otpasswd.Agent.ReadOnly
import Otpasswd.Agent.CardData
import Otpasswd.Agent.Policy
import Otpasswd.Agent.Audit
import Otpasswd.Agent.Agreement
import Otpasswd.Libotp.LockStatus
import Otpasswd.Utility.CodeAddress
import Otpasswd.Utility.CodeRange
import Otpasswd.Libotp.Cards
import Otpasswd.Libotp.Budget
import Otpasswd.Libotp.StoreAtomic
import Otpasswd.Libotp.Alphabet
import Otpasswd.Libotp.SpassStore
import Otpasswd.Libotp.LineBuffer
import Otpasswd.Libotp.EntryForm
import Otpasswd.Agent.Pipe
import Otpasswd.Utility.PrintNext
import Otpasswd.Agent.SaltKept
import Otpasswd.Agent.NewKey
import Otpasswd.Agent.Manage
import Otpasswd.Libotp.ConfigBlank
import Otpasswd.Pam.Session
import Otpasswd.Libotp.Concurrent
import Otpasswd.Libotp.KeyKept
import Otpasswd.Utility.Printed
import Otpasswd.Utility.Linked
import Otpasswd.Agent.Draft
