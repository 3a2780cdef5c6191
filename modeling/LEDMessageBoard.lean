import LEDMessageBoard.Agreement
import LEDMessageBoard.Reload
import LEDMessageBoard.Slots
import LEDMessageBoard.Replies
import LEDMessageBoard.Ports
import LEDMessageBoard.Sessions
import LEDMessageBoard.FileMonitor
import LEDMessageBoard.FileChannel
import LEDMessageBoard.Insertion
import LEDMessageBoard.Controls
import LEDMessageBoard.ShortWrites
import LEDMessageBoard.Alerts
import LEDMessageBoard.Arguments
import LEDMessageBoard.Clients
import LEDMessageBoard.TypedLines
import LEDMessageBoard.Quoting
import LEDMessageBoard.TypedMessage
import LEDMessageBoard.Shell
import LEDMessageBoard.SpoolToBoard
import LEDMessageBoard.PasswordEntry
import LEDMessageBoard.SerialPort
import LEDMessageBoard.PortWrites
import LEDMessageBoard.LogFile
